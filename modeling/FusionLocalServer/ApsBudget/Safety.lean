import Mathlib.Data.Finset.Card
import Mathlib.Order.Interval.Finset.Nat
import FusionLocalServer.ApsBudget.Scheduler
import FusionLocalServer.Lib.Run

/-!
# Safety of the request scheduler

The queue of a lane holds exactly the lane's waiting requests: made, not dispatched and
not cancelled (`Queued`). So the head of the heap is the first of them in priority order,
a cancelled waiter is never met at the head, and a dispatch moves one request from waiting
to held. The lane's in-flight count is the number of requests it holds (`Counted`).

Every critical section keeps the two, and what it does to the waiters is a `Moves`: it
cancels some and dispatches exactly those it granted, each by a sound grant. `Acquire` first
adds a waiter (`Joins`).
-/

namespace ApsBudget

namespace Scheduler

/-- The request is waiting on the lane: neither dispatched nor cancelled. -/
def Waiting (s : Scheduler) (lane : Lane) (id : Nat) : Prop :=
  0 < id ∧ id ≤ s.seq ∧ (s.waiters id).req.lane = lane ∧
    (s.waiters id).dispatched = false ∧ (s.waiters id).cancelled = false

/-- `a` goes before `b`: it has the higher priority, or the same and it came first. -/
def Ahead (s : Scheduler) (a b : Nat) : Prop :=
  let rank := fun id => (s.waiters id).req.priority.rank
  rank a < rank b ∨ rank a = rank b ∧ a < b

end Scheduler

/-- What a grant may be: to the first of those waiting, on a lane that is not cooling
down, and on the GraphQL lane leaving the reserve of the priority, up to what refills in
one nanosecond. -/
structure Grant.Sound (g : Grant) : Prop where
  waiting : g.before.Waiting g.lane g.id
  first : ∀ id, g.before.Waiting g.lane id → id ≠ g.id → g.before.Ahead g.id id
  cooled : (g.before.lanes g.lane).cooldownUntil ≤ g.now
  reserve : g.lane = .graphQL →
    g.before.cfg.reserveFloor (g.before.waiters g.id).req.priority * g.before.cfg.capacity
      - g.before.cfg.refillPerSec / (second : Int) < g.after.bucket.tokens

namespace Scheduler

variable {s s' s'' : Scheduler} {lane : Lane} {now : Time} {released : Nat → Bool}

section Projections

variable (s : Scheduler) (l : Lane) (ln : LaneState) (id : Nat) (w : Waiter)

@[simp] theorem setLane_waiters : (s.setLane l ln).waiters = s.waiters := rfl
@[simp] theorem setLane_seq : (s.setLane l ln).seq = s.seq := rfl
@[simp] theorem setLane_cfg : (s.setLane l ln).cfg = s.cfg := rfl
@[simp] theorem setLane_bucket : (s.setLane l ln).bucket = s.bucket := rfl
@[simp] theorem setLane_same : (s.setLane l ln).lanes l = ln := if_pos rfl

theorem setLane_other {m : Lane} (h : m ≠ l) : (s.setLane l ln).lanes m = s.lanes m :=
  if_neg h

@[simp] theorem setWaiter_lanes : (s.setWaiter id w).lanes = s.lanes := rfl
@[simp] theorem setWaiter_seq : (s.setWaiter id w).seq = s.seq := rfl
@[simp] theorem setWaiter_cfg : (s.setWaiter id w).cfg = s.cfg := rfl
@[simp] theorem setWaiter_bucket : (s.setWaiter id w).bucket = s.bucket := rfl
@[simp] theorem setWaiter_same : (s.setWaiter id w).waiters id = w := if_pos rfl

theorem setWaiter_other {i : Nat} (h : i ≠ id) : (s.setWaiter id w).waiters i = s.waiters i :=
  if_neg h

end Projections

/-! ## The order of the queue -/

theorem rank_inj {p q : Priority} (h : p.rank = q.rank) : p = q := by
  cases p <;> cases q <;> first | rfl | cases h

theorem less_iff (ws : Nat → Waiter) (a b : Nat) :
    less ws a b = true ↔ (ws a).req.priority.rank < (ws b).req.priority.rank ∨
      (ws a).req.priority.rank = (ws b).req.priority.rank ∧ a < b := by
  unfold less
  split
  · next hne =>
    have hrank : (ws a).req.priority.rank ≠ (ws b).req.priority.rank :=
      fun heq => hne (rank_inj heq)
    simp [hrank]
  · next heq =>
    rw [not_not] at heq
    simp [heq]

theorem less_eq_false_iff (ws : Nat → Waiter) (a b : Nat) :
    less ws a b = false ↔ (ws b).req.priority.rank < (ws a).req.priority.rank ∨
      (ws b).req.priority.rank = (ws a).req.priority.rank ∧ b ≤ a := by
  rw [← Bool.not_eq_true, less_iff]
  omega

theorem less_strictWeak (ws : Nat → Waiter) : Lib.Heap.StrictWeak (less ws) where
  asymm a b h := by
    rw [less_iff] at h
    rw [less_eq_false_iff]
    omega
  negTrans a b c h₁ h₂ := by
    rw [less_eq_false_iff] at *
    omega

theorem less_congr {ws ws' : Nat → Waiter} {a b : Nat} (ha : (ws' a).req = (ws a).req)
    (hb : (ws' b).req = (ws b).req) : less ws' a b = less ws a b := by
  unfold less
  rw [ha, hb]

/-! ## The invariant -/

/-- The queues hold exactly those waiting. -/
structure Queued (s : Scheduler) : Prop where
  valid : ∀ lane, (s.lanes lane).queue.Valid (less s.waiters)
  mem : ∀ lane id, (s.lanes lane).queue.Mem id ↔ s.Waiting lane id
  apart : ∀ id, (s.waiters id).dispatched = true → (s.waiters id).cancelled = false
  unmade : ∀ id, s.seq < id →
    (s.waiters id).dispatched = false ∧ (s.waiters id).cancelled = false
  /-- Nothing was put on the channel of a waiter still waiting, nor was it closed. -/
  unsent : ∀ id, (s.waiters id).dispatched = false → (s.waiters id).cancelled = false →
    (s.waiters id).ready = .empty

/-- The requests that hold a slot of the lane. -/
def held (s : Scheduler) (released : Nat → Bool) (lane : Lane) : Finset Nat :=
  (Finset.range (s.seq + 1)).filter fun id =>
    (s.waiters id).req.lane = lane ∧ (s.waiters id).dispatched = true ∧ released id = false

/-- The in-flight counts are right and within their bounds. -/
structure Counted (s : Scheduler) (released : Nat → Bool) : Prop where
  dispatched : ∀ id, released id = true → (s.waiters id).dispatched = true
  inFlight : ∀ lane, (s.lanes lane).inFlight = ((s.held released lane).card : Int)
  le_max : ∀ lane, (s.lanes lane).inFlight ≤ (s.lanes lane).max

/-- The bucket is the configured one. -/
structure Rated (s : Scheduler) : Prop where
  pos : 0 < s.cfg.refillPerSec
  refillPer : s.bucket.refillPer = s.cfg.refillPerSec

structure Inv (s : Scheduler) (released : Nat → Bool) : Prop where
  queued : s.Queued
  counted : s.Counted released
  rated : s.Rated

/-- What a critical section does to the waiters there are: it cancels some, and
dispatches those it grants. -/
structure Moves (s s' : Scheduler) (gs : List Grant) : Prop where
  seq : s'.seq = s.seq
  kept : ∀ id, (s'.waiters id).req = (s.waiters id).req ∧
    (s'.waiters id).enqueued = (s.waiters id).enqueued
  cancelled : ∀ id, (s.waiters id).cancelled = true → (s'.waiters id).cancelled = true
  dispatched : ∀ id, (s'.waiters id).dispatched = true ↔
    (s.waiters id).dispatched = true ∨ id ∈ gs.map Grant.id
  fresh : ∀ id ∈ gs.map Grant.id, (s.waiters id).dispatched = false
  nodup : (gs.map Grant.id).Nodup
  sound : ∀ g ∈ gs, g.Sound

theorem Moves.trans {gs gs' : List Grant} (h₁ : Moves s s' gs) (h₂ : Moves s' s'' gs') :
    Moves s s'' (gs ++ gs') where
  seq := h₂.seq.trans h₁.seq
  kept id := ⟨(h₂.kept id).1.trans (h₁.kept id).1, (h₂.kept id).2.trans (h₁.kept id).2⟩
  cancelled id hc := h₂.cancelled id (h₁.cancelled id hc)
  dispatched id := by
    rw [h₂.dispatched, h₁.dispatched, List.map_append, List.mem_append, or_assoc]
  fresh id hid := by
    rw [List.map_append, List.mem_append] at hid
    rcases hid with hid | hid
    · exact h₁.fresh id hid
    · -- what was dispatched before stays so
      have hnot := h₂.fresh id hid
      by_contra hcon
      rw [(h₁.dispatched id).mpr (.inl (by simpa using hcon))] at hnot
      cases hnot
  nodup := by
    rw [List.map_append, List.nodup_append]
    refine ⟨h₁.nodup, h₂.nodup, fun a ha b hb heq => ?_⟩
    subst heq
    have hnot := h₂.fresh a hb
    rw [(h₁.dispatched a).mpr (.inr ha)] at hnot
    cases hnot
  sound g hg := by
    rw [List.mem_append] at hg
    exact hg.elim (h₁.sound g) (h₂.sound g)

/-! ## Changes that leave the waiters and queues alone -/

/-- The two differ in nothing the invariant is about. -/
structure Alike (s s' : Scheduler) : Prop where
  waiters : s'.waiters = s.waiters
  seq : s'.seq = s.seq
  cfg : s'.cfg = s.cfg
  shape : s.bucket.SameShape s'.bucket
  queue : ∀ l, (s'.lanes l).queue = (s.lanes l).queue
  inFlight : ∀ l, (s'.lanes l).inFlight = (s.lanes l).inFlight
  max : ∀ l, (s'.lanes l).max = (s.lanes l).max

theorem Alike.refl (s : Scheduler) : Alike s s :=
  ⟨rfl, rfl, rfl, ⟨rfl, rfl⟩, fun _ => rfl, fun _ => rfl, fun _ => rfl⟩

theorem Alike.trans (h₁ : Alike s s') (h₂ : Alike s' s'') : Alike s s'' where
  waiters := h₂.waiters.trans h₁.waiters
  seq := h₂.seq.trans h₁.seq
  cfg := h₂.cfg.trans h₁.cfg
  shape := ⟨h₂.shape.1.trans h₁.shape.1, h₂.shape.2.trans h₁.shape.2⟩
  queue l := (h₂.queue l).trans (h₁.queue l)
  inFlight l := (h₂.inFlight l).trans (h₁.inFlight l)
  max l := (h₂.max l).trans (h₁.max l)

/-- A new bucket of the same shape. -/
theorem alike_bucket {b : Bucket} (h : s.bucket.SameShape b) :
    Alike s { s with bucket := b } :=
  ⟨rfl, rfl, rfl, h, fun _ => rfl, fun _ => rfl, fun _ => rfl⟩

/-- New counters, and the flag that no more is admitted. -/
theorem alike_counters (s : Scheduler) (slowAt : Time) (refused trips : Int) (closed : Bool) :
    Alike s { s with slowAt := slowAt, refused := refused, trips := trips, closed := closed } :=
  ⟨rfl, rfl, rfl, ⟨rfl, rfl⟩, fun _ => rfl, fun _ => rfl, fun _ => rfl⟩

theorem alike_setLane {ln : LaneState} (hq : ln.queue = (s.lanes lane).queue)
    (hi : ln.inFlight = (s.lanes lane).inFlight) (hm : ln.max = (s.lanes lane).max) :
    Alike s (s.setLane lane ln) := by
  refine ⟨rfl, rfl, rfl, ⟨rfl, rfl⟩, fun l => ?_, fun l => ?_, fun l => ?_⟩
  all_goals
    by_cases hl : l = lane
    · subst hl
      rw [setLane_same]
      assumption
    · rw [setLane_other _ _ _ hl]

theorem Alike.waiting (h : Alike s s') {l : Lane} {id : Nat} :
    s'.Waiting l id ↔ s.Waiting l id := by
  unfold Waiting
  rw [h.waiters, h.seq]

theorem Alike.queued (h : Alike s s') (hq : s.Queued) : s'.Queued where
  valid l := by
    rw [h.queue, h.waiters]
    exact hq.valid l
  mem l id := by
    rw [h.queue, h.waiting]
    exact hq.mem l id
  apart id := by
    rw [h.waiters]
    exact hq.apart id
  unmade id := by
    rw [h.waiters, h.seq]
    exact hq.unmade id
  unsent id := by
    rw [h.waiters]
    exact hq.unsent id

/-- The counts are about what is dispatched where. -/
theorem Counted.congr (hc : s.Counted released) (hseq : s'.seq = s.seq)
    (hw : ∀ id, (s'.waiters id).req = (s.waiters id).req ∧
      (s'.waiters id).dispatched = (s.waiters id).dispatched)
    (hl : ∀ l, (s'.lanes l).inFlight = (s.lanes l).inFlight ∧
      (s'.lanes l).max = (s.lanes l).max) : s'.Counted released where
  dispatched id := by
    rw [(hw id).2]
    exact hc.dispatched id
  inFlight l := by
    rw [(hl l).1, hc.inFlight]
    unfold held
    simp only [hw, hseq]
  le_max l := by
    rw [(hl l).1, (hl l).2]
    exact hc.le_max l

theorem Alike.counted (h : Alike s s') (hc : s.Counted released) : s'.Counted released :=
  hc.congr h.seq (fun id => by rw [h.waiters]; exact ⟨rfl, rfl⟩)
    fun l => ⟨h.inFlight l, h.max l⟩

theorem Alike.rated (h : Alike s s') (hr : s.Rated) : s'.Rated where
  pos := by
    rw [h.cfg]
    exact hr.pos
  refillPer := by
    rw [h.shape.2, h.cfg]
    exact hr.refillPer

theorem Alike.inv (h : Alike s s') (hi : s.Inv released) : s'.Inv released :=
  ⟨h.queued hi.queued, h.counted hi.counted, h.rated hi.rated⟩

theorem Alike.moves (h : Alike s s') : Moves s s' [] where
  seq := h.seq
  kept id := by
    rw [h.waiters]
    exact ⟨rfl, rfl⟩
  cancelled id hc := by
    rw [h.waiters]
    exact hc
  dispatched id := by
    rw [h.waiters]
    simp
  fresh id hid := by cases hid
  nodup := List.nodup_nil
  sound g hg := by cases hg

theorem Moves.refl (s : Scheduler) : Moves s s [] := (Alike.refl s).moves

/-! ## A waiter that leaves the queue -/

/-- One waiter of the lane is dispatched or cancelled, and its id taken out of the lane's
queue. -/
structure Leaves (s s' : Scheduler) (id : Nat) : Prop where
  seq : s'.seq = s.seq
  cfg : s'.cfg = s.cfg
  waiter : (s'.waiters id).req = (s.waiters id).req ∧
    (s'.waiters id).enqueued = (s.waiters id).enqueued
  gone : (s'.waiters id).dispatched = true ∧ (s'.waiters id).cancelled = false ∨
    (s'.waiters id).dispatched = false ∧ (s'.waiters id).cancelled = true
  other : ∀ i, i ≠ id → s'.waiters i = s.waiters i
  valid : ∀ l, (s'.lanes l).queue.Valid (less s.waiters)
  mem : ∀ l i, (s'.lanes l).queue.Mem i ↔ (s.lanes l).queue.Mem i ∧ i ≠ id

theorem Leaves.waiting {id : Nat} (h : Leaves s s' id) {l : Lane} {i : Nat} :
    s'.Waiting l i ↔ s.Waiting l i ∧ i ≠ id := by
  unfold Waiting
  by_cases hi : i = id
  · subst hi
    rcases h.gone with ⟨hd, -⟩ | ⟨-, hc⟩
    · simp [hd]
    · simp [hc]
  · rw [h.other i hi, h.seq]
    simp [hi]

theorem Leaves.queued {id : Nat} (h : Leaves s s' id) (hq : s.Queued) (hid : id ≤ s.seq) :
    s'.Queued where
  valid l := by
    have hreq : ∀ i, (s'.waiters i).req = (s.waiters i).req := by
      intro i
      by_cases hi : i = id
      · rw [hi]
        exact h.waiter.1
      · rw [h.other i hi]
    exact (h.valid l).congr fun x y _ _ => less_congr (hreq x) (hreq y)
  mem l i := by rw [h.mem, h.waiting, hq.mem]
  apart i := by
    by_cases hi : i = id
    · subst hi
      rcases h.gone with ⟨-, hc⟩ | ⟨hd, -⟩
      · exact fun _ => hc
      · simp [hd]
    · rw [h.other i hi]
      exact hq.apart i
  unmade i hlt := by
    rw [h.seq] at hlt
    rw [h.other i (by omega)]
    exact hq.unmade i hlt
  unsent i := by
    by_cases hi : i = id
    · subst hi
      rcases h.gone with ⟨hd, -⟩ | ⟨-, hc⟩
      · simp [hd]
      · simp [hc]
    · rw [h.other i hi]
      exact hq.unsent i

/-! ## One turn of the loop -/

section Dispatch

variable (s : Scheduler) (lane : Lane) (now : Time) (id : Nat)

theorem dispatch_waiters :
    (s.dispatch lane now id).waiters =
      (s.setWaiter id { s.waiters id with dispatched := true, ready := .sent }).waiters := by
  unfold dispatch popHead
  dsimp only
  split <;> split <;> rfl

theorem dispatch_seq : (s.dispatch lane now id).seq = s.seq := by
  unfold dispatch
  dsimp only
  split <;> split <;> rfl

theorem dispatch_cfg : (s.dispatch lane now id).cfg = s.cfg := by
  unfold dispatch
  dsimp only
  split <;> split <;> rfl

theorem dispatch_bucket :
    (s.dispatch lane now id).bucket =
      if lane = .graphQL then s.bucket.take (s.waiters id).req.cost else s.bucket := by
  unfold dispatch
  dsimp only
  split <;> split <;> rfl

theorem dispatch_lanes :
    (s.dispatch lane now id).lanes = (s.setLane lane
      { s.lanes lane with
        queue := (s.lanes lane).queue.pop (less s.waiters)
        inFlight := (s.lanes lane).inFlight + 1 }).lanes := by
  unfold dispatch popHead
  dsimp only
  split <;> split
  all_goals
    funext l
    by_cases hl : l = lane <;> simp [setLane, setWaiter, hl]

end Dispatch

/-- A waiter at the head of a lane's queue is the first of those waiting there. -/
theorem Queued.head (hq : s.Queued) (hne : (s.lanes lane).queue.len ≠ 0) :
    s.Waiting lane ((s.lanes lane).queue.cell 0) ∧
      ∀ id, s.Waiting lane id → id ≠ (s.lanes lane).queue.cell 0 →
        s.Ahead ((s.lanes lane).queue.cell 0) id := by
  refine ⟨(hq.mem lane _).mp ⟨0, by omega, rfl⟩, fun id hid hne' => ?_⟩
  have hleast := (hq.valid lane).root_least (less_strictWeak _) ((hq.mem lane id).mpr hid)
  rw [less_eq_false_iff] at hleast
  unfold Ahead
  dsimp only
  omega

variable (now) in
theorem Queued.leaves_dispatch (hq : s.Queued) (hne : (s.lanes lane).queue.len ≠ 0) :
    Leaves s (s.dispatch lane now ((s.lanes lane).queue.cell 0))
      ((s.lanes lane).queue.cell 0) := by
  obtain ⟨n, hlen⟩ := Nat.exists_eq_succ_of_ne_zero hne
  have hwait := (hq.head hne).1
  refine ⟨dispatch_seq .., dispatch_cfg .., ?_, ?_, fun i hi => ?_, fun l => ?_,
    fun l i => ?_⟩
  · rw [dispatch_waiters, setWaiter_same]
    exact ⟨rfl, rfl⟩
  · rw [dispatch_waiters, setWaiter_same]
    exact .inl ⟨rfl, hwait.2.2.2.2⟩
  · rw [dispatch_waiters, setWaiter_other _ _ _ hi]
  · rw [dispatch_lanes]
    by_cases hl : l = lane
    · subst hl
      rw [setLane_same]
      exact Lib.Heap.pop_valid (less_strictWeak _) (hq.valid l) hlen
    · rw [setLane_other _ _ _ hl]
      exact hq.valid l
  · rw [dispatch_lanes]
    by_cases hl : l = lane
    · subst hl
      rw [setLane_same]
      exact Lib.Heap.pop_mem hlen (hq.valid l).indexed i
    · rw [setLane_other _ _ _ hl, iff_self_and]
      -- the one dispatched waits on its own lane only
      rintro hmem rfl
      exact hl (((hq.mem l _).mp hmem).2.2.1.symm.trans hwait.2.2.1)

theorem Counted.dispatch (hc : s.Counted released) (hq : s.Queued)
    (hne : (s.lanes lane).queue.len ≠ 0)
    (hroom : (s.lanes lane).inFlight < (s.lanes lane).max) :
    (s.dispatch lane now ((s.lanes lane).queue.cell 0)).Counted released := by
  obtain ⟨-, hle, hlane, hdis, -⟩ := (hq.head hne).1
  have hmoved := hq.leaves_dispatch now hne
  generalize hid : (s.lanes lane).queue.cell 0 = id at *
  have hfree : released id = false := by
    by_contra hcon
    rw [hc.dispatched id (by simpa using hcon)] at hdis
    cases hdis
  have hnow : ((s.dispatch lane now id).waiters id).dispatched = true := by
    rw [dispatch_waiters, setWaiter_same]
  refine ⟨fun i hi => ?_, fun l => ?_, fun l => ?_⟩
  · by_cases h : i = id
    · rw [h]
      exact hnow
    · rw [hmoved.other i h]
      exact hc.dispatched i hi
  · have hheld : (s.dispatch lane now id).held released l =
        if l = lane then insert id (s.held released l) else s.held released l := by
      ext i
      by_cases hi : i = id
      · subst hi
        unfold held
        by_cases hl : l = lane
        · rw [if_pos hl]
          simp only [Finset.mem_filter, Finset.mem_range, Finset.mem_insert, true_or, iff_true,
            hmoved.seq, hmoved.waiter.1]
          exact ⟨by omega, hlane.trans hl.symm, hnow, hfree⟩
        · rw [if_neg hl]
          simp only [Finset.mem_filter, hmoved.waiter.1, hlane, Ne.symm hl, false_and, and_false]
      · unfold held
        rw [dispatch_seq]
        split <;> simp [hmoved.other i hi, hi]
    rw [hheld, dispatch_lanes]
    by_cases hl : l = lane
    · subst hl
      have hnot : id ∉ s.held released l := by
        simp [held, hdis]
      rw [setLane_same, if_pos rfl, Finset.card_insert_of_notMem hnot]
      push_cast
      rw [← hc.inFlight]
    · rw [setLane_other _ _ _ hl, if_neg hl]
      exact hc.inFlight l
  · rw [dispatch_lanes]
    by_cases hl : l = lane
    · subst hl
      rw [setLane_same]
      exact hroom
    · rw [setLane_other _ _ _ hl]
      exact hc.le_max l

/-- What a turn that is not the last does; a cancelled waiter is never at the head. -/
theorem turn_cases (hq : s.Queued) (lane : Lane) (now : Time) :
    (∃ s', s.turn lane now = .stop s' ∧ Alike s s') ∨
      ((s.lanes lane).queue.len ≠ 0 ∧ (s.lanes lane).inFlight < (s.lanes lane).max ∧
        s.headWait lane now (s.waiters ((s.lanes lane).queue.cell 0)) ≤ 0 ∧
        s.turn lane now = .grant (s.dispatch lane now ((s.lanes lane).queue.cell 0))
          ((s.lanes lane).queue.cell 0)) := by
  by_cases hlen : (s.lanes lane).queue.len = 0
  · exact .inl ⟨s, by simp [turn, hlen], Alike.refl s⟩
  have hkeep := (hq.head hlen).1.2.2.2.2
  by_cases hmax : (s.lanes lane).max ≤ (s.lanes lane).inFlight
  · exact .inl ⟨s, by simp [turn, hlen, hkeep, hmax], Alike.refl s⟩
  by_cases hwait : 0 < s.headWait lane now (s.waiters ((s.lanes lane).queue.cell 0))
  · by_cases hclosed : s.closed
    · exact .inl ⟨s, by simp [turn, hlen, hkeep, hmax, hwait, hclosed], Alike.refl s⟩
    · let due := now + s.headWait lane now (s.waiters ((s.lanes lane).queue.cell 0))
      refine .inl ⟨s.setLane lane { s.lanes lane with timer := some due }, ?_, ?_⟩
      · simp [turn, hlen, hkeep, hmax, hwait, hclosed, due]
      · exact alike_setLane rfl rfl rfl
  · exact .inr ⟨hlen, not_le.mp hmax, not_lt.mp hwait,
      by simp [turn, hlen, hkeep, hmax, hwait]⟩

/-- The grant of a turn is sound. -/
theorem Inv.sound_dispatch (hi : s.Inv released) (hne : (s.lanes lane).queue.len ≠ 0)
    (hgo : s.headWait lane now (s.waiters ((s.lanes lane).queue.cell 0)) ≤ 0) :
    Grant.Sound
      { id := (s.lanes lane).queue.cell 0, lane, now, before := s
        after := s.dispatch lane now ((s.lanes lane).queue.cell 0) } := by
  obtain ⟨hwait, hfirst⟩ := hi.queued.head hne
  unfold headWait at hgo
  dsimp only at hgo
  split at hgo
  · next hcool => exact absurd hgo (not_le.mpr (sub_pos_iff.mpr hcool))
  next hcool =>
  refine ⟨hwait, hfirst, not_lt.mp hcool, fun hlane => ?_⟩
  have hlane' : lane = .graphQL := hlane
  rw [if_pos hlane'] at hgo
  have hpos : 0 < s.bucket.refillPer := by
    rw [hi.rated.refillPer]
    exact hi.rated.pos
  have hleft := Bucket.lt_of_deficitWait_nonpos hpos hgo
  rw [hi.rated.refillPer] at hleft
  dsimp only
  rw [dispatch_bucket, if_pos hlane']
  unfold want at hleft
  unfold Bucket.take
  dsimp only
  linarith

theorem Inv.dispatch (hi : s.Inv released) (hne : (s.lanes lane).queue.len ≠ 0)
    (hroom : (s.lanes lane).inFlight < (s.lanes lane).max) :
    (s.dispatch lane now ((s.lanes lane).queue.cell 0)).Inv released where
  queued :=
    (hi.queued.leaves_dispatch now hne).queued hi.queued (hi.queued.head hne).1.2.1
  counted := hi.counted.dispatch hi.queued hne hroom
  rated := by
    refine ⟨by rw [dispatch_cfg]; exact hi.rated.pos, ?_⟩
    rw [dispatch_bucket, dispatch_cfg]
    split
    · rw [(Bucket.take_shape _ _).2]
      exact hi.rated.refillPer
    · exact hi.rated.refillPer

theorem Inv.moves_dispatch (hi : s.Inv released) (hne : (s.lanes lane).queue.len ≠ 0)
    (hgo : s.headWait lane now (s.waiters ((s.lanes lane).queue.cell 0)) ≤ 0) :
    Moves s (s.dispatch lane now ((s.lanes lane).queue.cell 0))
      [{ id := (s.lanes lane).queue.cell 0, lane, now, before := s
         after := s.dispatch lane now ((s.lanes lane).queue.cell 0) }] := by
  have hmoved := hi.queued.leaves_dispatch now hne
  have hwait := (hi.queued.head hne).1
  have hnow : ((s.dispatch lane now ((s.lanes lane).queue.cell 0)).waiters
      ((s.lanes lane).queue.cell 0)).dispatched = true := by
    rw [dispatch_waiters, setWaiter_same]
  refine ⟨hmoved.seq, fun i => ?_, fun i hc => ?_, fun i => ?_, ?_,
    List.nodup_singleton _, ?_⟩
  · by_cases h : i = (s.lanes lane).queue.cell 0
    · rw [h]
      exact hmoved.waiter
    · rw [hmoved.other i h]
      exact ⟨rfl, rfl⟩
  · have h : i ≠ (s.lanes lane).queue.cell 0 := by
      rintro rfl
      rw [hwait.2.2.2.2] at hc
      cases hc
    rw [hmoved.other i h]
    exact hc
  · rw [List.map_singleton, List.mem_singleton]
    by_cases h : i = (s.lanes lane).queue.cell 0
    · simp [h, hnow]
    · rw [hmoved.other i h]
      simp [h]
  · intro i hmem
    rw [List.map_singleton, List.mem_singleton] at hmem
    rw [hmem]
    exact hwait.2.2.2.1
  · intro g hg
    rw [List.mem_singleton] at hg
    rw [hg]
    exact hi.sound_dispatch hne hgo

/-! ## The critical sections -/

/-- A critical section keeps the invariant and only moves waiters. -/
def Good (released : Nat → Bool) (s : Scheduler) (r : Scheduler × List Grant) : Prop :=
  r.1.Inv released ∧ Moves s r.1 r.2

theorem Good.after {gs : List Grant} {r : Scheduler × List Grant} (h₁ : Moves s s' gs)
    (h₂ : Good released s' r) : Good released s (r.1, gs ++ r.2) :=
  ⟨h₂.1, h₁.trans h₂.2⟩

theorem Alike.good (h : Alike s s') (hi : s.Inv released) : Good released s (s', []) :=
  ⟨h.inv hi, h.moves⟩

theorem good_dispatchLoop (lane : Lane) (now : Time) (fuel : Nat) :
    ∀ s : Scheduler, s.Inv released → Good released s (dispatchLoop lane now fuel s) := by
  induction fuel with
  | zero => exact fun s hi => (Alike.refl s).good hi
  | succ fuel ih =>
    intro s hi
    rw [dispatchLoop]
    rcases turn_cases hi.queued lane now with ⟨s', hturn, hlike⟩ | ⟨hne, hroom, hgo, hturn⟩
    · rw [hturn]
      exact hlike.good hi
    · rw [hturn]
      exact Good.after (hi.moves_dispatch hne hgo) (ih _ (hi.dispatch hne hroom))

theorem good_kickLocked (hi : s.Inv released) (lane : Lane) (now : Time) :
    Good released s (s.kickLocked lane now) := by
  let s₁ := s.setLane lane { s.lanes lane with timer := none }
  have hstop : Alike s s₁ := alike_setLane rfl rfl rfl
  have hlike : Alike s { s₁ with bucket := s₁.bucket.refill now } :=
    hstop.trans (alike_bucket (Bucket.refill_shape _ _))
  exact Good.after hlike.moves (good_dispatchLoop lane now _ _ (hlike.inv hi))

/-- A change the invariant does not see, and then a kick. -/
theorem Alike.good_kick (h : Alike s s') (hi : s.Inv released) (lane : Lane) (now : Time) :
    Good released s (s'.kickLocked lane now) :=
  Good.after h.moves (good_kickLocked (h.inv hi) lane now)

theorem good_tick (hi : s.Inv released) (now : Time) (lane : Lane) :
    Good released s (s.tick now lane) := by
  unfold tick
  split
  · exact (Alike.refl s).good hi
  · exact good_kickLocked hi lane now

theorem good_trip (hi : s.Inv released) (now : Time) (lane : Lane) (retryAfter : Duration)
    (remaining : Option Int) : Good released s (s.trip now lane retryAfter remaining) := by
  unfold trip
  dsimp only
  let ln := s.lanes lane
  let due := now + s.cooldown now lane retryAfter
  let s₁ := s.setLane lane
    { ln with
      cooldownUntil := if ln.cooldownUntil < due then due else ln.cooldownUntil
      lastTrip := now
      lastCooldown := s.cooldown now lane retryAfter }
  have h₁ : Alike s s₁ := alike_setLane rfl rfl rfl
  have h₂ : Alike s { s₁ with trips := s₁.trips + 1, slowAt := now } :=
    h₁.trans (alike_counters s₁ now s₁.refused (s₁.trips + 1) s₁.closed)
  refine Alike.good_kick ?_ hi lane now
  split
  · split
    · exact h₂.trans (alike_bucket (Bucket.setLevel_shape _ _))
    · exact h₂
  · exact h₂

theorem good_snapshot (hi : s.Inv released) (now : Time) :
    Good released s (s.snapshot now, []) :=
  (alike_bucket (Bucket.refill_shape _ _)).good hi

theorem good_refuse (hi : s.Inv released) (now : Time) (id : Nat) :
    Good released s ((s.refuse now id).2, []) :=
  (alike_counters s now (s.refused + 1) s.trips s.closed).good hi

/-- Nothing is dispatched and no slot moves; waiters may be cancelled and signalled. -/
structure Quiet (s s' : Scheduler) : Prop where
  seq : s'.seq = s.seq
  cfg : s'.cfg = s.cfg
  bucket : s'.bucket = s.bucket
  request : ∀ id, (s'.waiters id).req = (s.waiters id).req ∧
    (s'.waiters id).enqueued = (s.waiters id).enqueued
  dispatched : ∀ id, (s'.waiters id).dispatched = (s.waiters id).dispatched
  cancelled : ∀ id, (s.waiters id).cancelled = true → (s'.waiters id).cancelled = true
  lanes : ∀ l, (s'.lanes l).inFlight = (s.lanes l).inFlight ∧
    (s'.lanes l).max = (s.lanes l).max

theorem Quiet.good (h : Quiet s s') (hi : s.Inv released) (hq : s'.Queued) :
    Good released s (s', []) := by
  have hsame : ∀ id, (s'.waiters id).req = (s.waiters id).req ∧
      (s'.waiters id).dispatched = (s.waiters id).dispatched :=
    fun id => ⟨(h.request id).1, h.dispatched id⟩
  refine ⟨⟨hq, hi.counted.congr h.seq hsame h.lanes, ?_, ?_⟩, h.seq, h.request, h.cancelled,
    fun id => ?_, fun _ hmem => (nomatch hmem), List.nodup_nil, fun _ hg => (nomatch hg)⟩
  · rw [h.cfg]
    exact hi.rated.pos
  · rw [h.bucket, h.cfg]
    exact hi.rated.refillPer
  · rw [h.dispatched]
    simp

/-! ### Leaving -/

/-- Cancelling a waiter that is still queued, and taking it out of the heap. -/
theorem Queued.leaves_abandon {id : Nat} (hq : s.Queued) (hw : s.Waiting lane id) :
    let s₁ := s.setWaiter id { s.waiters id with cancelled := true }
    let q := (s.lanes lane).queue
    (q.index id < q.len ∧ q.cell (q.index id) = id) ∧
      Leaves s (s₁.setLane lane
        { s₁.lanes lane with queue := q.remove (less s₁.waiters) (q.index id) }) id := by
  obtain ⟨k, hk, hcell⟩ := (hq.mem lane id).mpr hw
  have hindex : (s.lanes lane).queue.index id = k := by
    rw [← hcell]
    exact (hq.valid lane).indexed k hk
  have hless : less (s.setWaiter id { s.waiters id with cancelled := true }).waiters =
      less s.waiters := by
    funext a b
    refine less_congr ?_ ?_
    · by_cases ha : a = id
      · rw [ha, setWaiter_same]
      · rw [setWaiter_other _ _ _ ha]
    · by_cases hb : b = id
      · rw [hb, setWaiter_same]
      · rw [setWaiter_other _ _ _ hb]
  obtain ⟨n, hlen⟩ := Nat.exists_eq_succ_of_ne_zero (n := (s.lanes lane).queue.len) (by omega)
  dsimp only
  rw [hindex, hless]
  refine ⟨⟨hk, hcell⟩, rfl, rfl, ?_, ?_, fun i hi => ?_, fun l => ?_, fun l i => ?_⟩
  · rw [setLane_waiters, setWaiter_same]
    exact ⟨rfl, rfl⟩
  · rw [setLane_waiters, setWaiter_same]
    exact .inr ⟨hw.2.2.2.1, rfl⟩
  · rw [setLane_waiters, setWaiter_other _ _ _ hi]
  · by_cases hl : l = lane
    · subst hl
      rw [setLane_same]
      exact Lib.Heap.remove_valid (less_strictWeak _) (hq.valid l) hlen hk
    · rw [setLane_other _ _ _ hl]
      exact hq.valid l
  · by_cases hl : l = lane
    · subst hl
      rw [setLane_same]
      have hmem := Lib.Heap.remove_mem (less s.waiters) hlen hk (hq.valid l).indexed i
      rwa [hcell] at hmem
    · rw [setLane_other _ _ _ hl, setWaiter_lanes, iff_self_and]
      rintro hmem rfl
      exact hl (((hq.mem l _).mp hmem).2.2.1.symm.trans hw.2.2.1)

/-- Cancelling again what was cancelled changes nothing. -/
theorem setWaiter_self (s : Scheduler) {id : Nat} {w : Waiter} (h : w = s.waiters id) :
    s.setWaiter id w = s := by
  unfold setWaiter
  congr
  funext i
  split
  · next heq => rw [h, heq]
  · rfl

/-- `abandon` cancels a waiter that was not dispatched, and says so. -/
theorem good_abandon (hi : s.Inv released) (now : Time) {id : Nat} (h0 : 0 < id)
    (hle : id ≤ s.seq) :
    Good released s (s.abandon now id).2 ∧
      ((s.abandon now id).1 = false ∧ (s.waiters id).dispatched = true ∨
        (s.abandon now id).1 = true ∧
          ((s.abandon now id).2.1.waiters id).cancelled = true) := by
  unfold abandon
  dsimp only
  by_cases hdis : (s.waiters id).dispatched = true
  · rw [if_pos hdis]
    exact ⟨(Alike.refl s).good hi, .inl ⟨rfl, hdis⟩⟩
  rw [if_neg hdis]
  by_cases hcan : (s.waiters id).cancelled = true
  · -- it was refused when the scheduler closed, and is in no queue
    rw [setWaiter_self s (by rw [← hcan])]
    have hout : ¬ ((s.lanes (s.waiters id).req.lane).queue.index id <
        (s.lanes (s.waiters id).req.lane).queue.len ∧
        (s.lanes (s.waiters id).req.lane).queue.cell
          ((s.lanes (s.waiters id).req.lane).queue.index id) = id) := by
      rintro ⟨hlt, hcell⟩
      have hwait := (hi.queued.mem _ id).mp ⟨_, hlt, hcell⟩
      rw [hwait.2.2.2.2] at hcan
      cases hcan
    rw [if_neg hout]
    have hgood := good_kickLocked hi (s.waiters id).req.lane now
    exact ⟨hgood, .inr ⟨rfl, hgood.2.cancelled id hcan⟩⟩
  · have hwait : s.Waiting (s.waiters id).req.lane id :=
      ⟨h0, hle, rfl, by simpa using hdis, by simpa using hcan⟩
    obtain ⟨hin, hleaves⟩ := hi.queued.leaves_abandon hwait
    rw [setWaiter_lanes, if_pos hin]
    have hgone : ((s.setWaiter id { s.waiters id with cancelled := true }).waiters
        id).cancelled = true := by rw [setWaiter_same]
    have hquiet : Quiet s ((s.setWaiter id { s.waiters id with cancelled := true }).setLane
        (s.waiters id).req.lane _) :=
      { seq := rfl, cfg := rfl, bucket := rfl
        request := fun i => by
          by_cases h : i = id
          · rw [h]
            exact hleaves.waiter
          · rw [hleaves.other i h]
            exact ⟨rfl, rfl⟩
        dispatched := fun i => by
          by_cases h : i = id
          · rw [h, setLane_waiters, setWaiter_same]
          · rw [hleaves.other i h]
        cancelled := fun i hc => by
          by_cases h : i = id
          · rw [h]
            exact hgone
          · rw [hleaves.other i h]
            exact hc
        lanes := fun l => by
          by_cases hl : l = (s.waiters id).req.lane
          · rw [hl, setLane_same]
            exact ⟨rfl, rfl⟩
          · rw [setLane_other _ _ _ hl]
            exact ⟨rfl, rfl⟩ }
    have hgood := hquiet.good hi (hleaves.queued hi.queued hle)
    have hkick := good_kickLocked hgood.1 (s.waiters id).req.lane now
    exact ⟨Good.after hgood.2 hkick, .inr ⟨rfl, hkick.2.cancelled id hgone⟩⟩

/-- The waiter's signal is taken, once it was dispatched or cancelled. -/
theorem good_signal (hi : s.Inv released) {id : Nat} (ready : Ready)
    (hgone : (s.waiters id).dispatched = true ∨ (s.waiters id).cancelled = true) :
    Good released s (s.setWaiter id { s.waiters id with ready }, []) := by
  have hsame : ∀ i, ((s.setWaiter id { s.waiters id with ready }).waiters i).req =
      (s.waiters i).req ∧
      ((s.setWaiter id { s.waiters id with ready }).waiters i).enqueued =
        (s.waiters i).enqueued ∧
      ((s.setWaiter id { s.waiters id with ready }).waiters i).dispatched =
        (s.waiters i).dispatched ∧
      ((s.setWaiter id { s.waiters id with ready }).waiters i).cancelled =
        (s.waiters i).cancelled := by
    intro i
    by_cases h : i = id
    · rw [h, setWaiter_same]
      exact ⟨rfl, rfl, rfl, rfl⟩
    · rw [setWaiter_other _ _ _ h]
      exact ⟨rfl, rfl, rfl, rfl⟩
  have hquiet : Quiet s (s.setWaiter id { s.waiters id with ready }) :=
    { seq := rfl, cfg := rfl, bucket := rfl
      request := fun i => ⟨(hsame i).1, (hsame i).2.1⟩
      dispatched := fun i => (hsame i).2.2.1
      cancelled := fun i hc => by rw [(hsame i).2.2.2]; exact hc
      lanes := fun _ => ⟨rfl, rfl⟩ }
  refine hquiet.good hi ⟨fun l => ?_, fun l i => ?_, fun i => ?_, fun i => ?_, fun i => ?_⟩
  · exact (hi.queued.valid l).congr fun x y _ _ => less_congr (hsame x).1 (hsame y).1
  · unfold Waiting
    rw [setWaiter_lanes, hi.queued.mem, setWaiter_seq, (hsame i).1, (hsame i).2.2.1,
      (hsame i).2.2.2]
    rfl
  · rw [(hsame i).2.2.1, (hsame i).2.2.2]
    exact hi.queued.apart i
  · rw [(hsame i).2.2.1, (hsame i).2.2.2]
    exact hi.queued.unmade i
  · rw [(hsame i).2.2.1, (hsame i).2.2.2]
    intro hdis hcan
    have hne : i ≠ id := by
      rintro rfl
      rcases hgone with hg | hg
      · rw [hdis] at hg
        cases hg
      · rw [hcan] at hg
        cases hg
    rw [setWaiter_other _ _ _ hne]
    exact hi.queued.unsent i hdis hcan

/-! ### Releasing -/

/-- `id` released as well. -/
def releasing (released : Nat → Bool) (id : Nat) : Nat → Bool := fun i =>
  if i = id then true else released i

/-- The first `Release` of a dispatched request returns its slot. -/
theorem good_release (hi : s.Inv released) (now : Time) {id : Nat} (actual : Int)
    (hle : id ≤ s.seq) (hdis : (s.waiters id).dispatched = true)
    (hfree : released id = false) :
    Good (releasing released id) s (s.release now id actual) := by
  unfold release
  dsimp only
  let r := (s.waiters id).req
  let s₁ := s.setLane r.lane
    { s.lanes r.lane with inFlight := (s.lanes r.lane).inFlight - 1 }
  have hqueue : ∀ l, (s₁.lanes l).queue = (s.lanes l).queue := by
    intro l
    by_cases hl : l = r.lane
    · rw [hl, setLane_same]
    · rw [setLane_other _ _ _ hl]
  have hheld : ∀ l, s₁.held (releasing released id) l =
      if l = r.lane then (s.held released l).erase id else s.held released l := by
    intro l
    ext i
    by_cases h : i = id
    · subst h
      split
      · simp [held, releasing]
      · next hl => simp [held, releasing, s₁, show (s.waiters i).req.lane ≠ l from Ne.symm hl]
    · split <;> simp [held, releasing, s₁, h]
  have hmem : id ∈ s.held released r.lane := by
    simp [held, hdis, hfree, r]
    omega
  have hcounted : s₁.Counted (releasing released id) := by
    refine ⟨fun i hrel => ?_, fun l => ?_, fun l => ?_⟩
    · by_cases h : i = id
      · rw [h]
        exact hdis
      · exact hi.counted.dispatched i (by simpa [releasing, h] using hrel)
    · rw [hheld]
      by_cases hl : l = r.lane
      · have hcard := Finset.card_erase_add_one hmem
        rw [hl, setLane_same, if_pos rfl]
        dsimp only
        rw [hi.counted.inFlight]
        omega
      · rw [setLane_other _ _ _ hl, if_neg hl]
        exact hi.counted.inFlight l
    · have hmax := hi.counted.le_max l
      by_cases hl : l = r.lane
      · rw [hl] at hmax ⊢
        rw [setLane_same]
        dsimp only
        omega
      · rw [setLane_other _ _ _ hl]
        exact hmax
  have hqueued : s₁.Queued := by
    refine ⟨fun l => ?_, fun l i => ?_, hi.queued.apart, hi.queued.unmade, hi.queued.unsent⟩
    · rw [hqueue]
      exact hi.queued.valid l
    · rw [hqueue]
      exact hi.queued.mem l i
  have hgood : Good (releasing released id) s (s₁, []) :=
    ⟨⟨hqueued, hcounted, ⟨hi.rated.pos, hi.rated.refillPer⟩⟩,
      ⟨rfl, (Moves.refl s).kept, (Moves.refl s).cancelled, (Moves.refl s).dispatched,
        (Moves.refl s).fresh, List.nodup_nil, (Moves.refl s).sound⟩⟩
  refine Good.after hgood.2 (Alike.good_kick ?_ hgood.1 _ now)
  split
  · exact alike_bucket (Bucket.correct_shape _ _ _)
  · exact Alike.refl _

/-! ### Closing -/

/-- What closing does to the waiters of a list of ids. -/
theorem closeLane_fold (cell : Nat → Nat) (is : List Nat) :
    ∀ s : Scheduler, ∃ ws, is.foldl (fun s i =>
        let id := cell i
        let w := s.waiters id
        if w.dispatched then s
        else s.setWaiter id { w with cancelled := true, ready := .closed }) s =
          { s with waiters := ws } ∧
      ∀ id, ws id = if id ∈ is.map cell ∧ (s.waiters id).dispatched = false then
        { s.waiters id with cancelled := true, ready := .closed } else s.waiters id := by
  induction is with
  | nil => exact fun s => ⟨s.waiters, rfl, fun id => by simp⟩
  | cons i is ih =>
    intro s
    simp only [List.foldl_cons]
    by_cases hdis : (s.waiters (cell i)).dispatched = true
    · rw [if_pos hdis]
      obtain ⟨ws, heq, hws⟩ := ih s
      refine ⟨ws, heq, fun id => ?_⟩
      rw [hws]
      by_cases hid : id = cell i
      · subst hid
        simp [hdis]
      · simp [hid]
    · rw [if_neg hdis]
      obtain ⟨ws, heq, hws⟩ := ih (s.setWaiter (cell i)
        { s.waiters (cell i) with cancelled := true, ready := .closed })
      refine ⟨ws, heq, fun id => ?_⟩
      rw [hws]
      by_cases hid : id = cell i
      · subst hid
        simp [hdis]
      · rw [setWaiter_other _ _ _ hid]
        simp [hid]

/-- Closing a lane cancels what waits on it and empties its queue. -/
theorem good_closeLane (hi : s.Inv released) (lane : Lane) :
    Good released s (s.closeLane lane, []) := by
  obtain ⟨ws, heq, hws⟩ :=
    closeLane_fold (s.lanes lane).queue.cell (List.range (s.lanes lane).queue.len) s
  have hmem : ∀ id, id ∈ (List.range (s.lanes lane).queue.len).map
      (s.lanes lane).queue.cell ↔ s.Waiting lane id := by
    intro id
    rw [← hi.queued.mem]
    simp [Lib.Heap.Mem]
  have hwaits : ∀ id, s.Waiting lane id ∧
        ws id = { s.waiters id with cancelled := true, ready := .closed } ∨
      ¬ s.Waiting lane id ∧ ws id = s.waiters id := by
    intro id
    rw [hws]
    by_cases h : s.Waiting lane id
    · exact .inl ⟨h, if_pos ⟨(hmem id).mpr h, h.2.2.2.1⟩⟩
    · exact .inr ⟨h, if_neg fun hcon => h ((hmem id).mp hcon.1)⟩
  have hclosed : s.closeLane lane = ({ s with waiters := ws } : Scheduler).setLane lane
      { s.lanes lane with queue := { (s.lanes lane).queue with len := 0 } } := by
    unfold closeLane
    dsimp only
    rw [heq]
  have hsame : ∀ id, (ws id).req = (s.waiters id).req ∧
      (ws id).enqueued = (s.waiters id).enqueued ∧
      (ws id).dispatched = (s.waiters id).dispatched ∧
      ((s.waiters id).cancelled = true → (ws id).cancelled = true) := by
    intro id
    rcases hwaits id with ⟨-, h⟩ | ⟨-, h⟩
    · rw [h]
      exact ⟨rfl, rfl, rfl, fun _ => rfl⟩
    · rw [h]
      exact ⟨rfl, rfl, rfl, fun hc => hc⟩
  -- who still waits is who waited, on another lane
  have hstill : ∀ l id, (s.closeLane lane).Waiting l id ↔ s.Waiting l id ∧ l ≠ lane := by
    intro l id
    rw [hclosed]
    unfold Waiting
    simp only [setLane_waiters, setLane_seq, (hsame id).1, (hsame id).2.2.1]
    rcases hwaits id with ⟨hw, h⟩ | ⟨hw, h⟩
    · rw [h]
      obtain ⟨-, -, hlane, -, hcan⟩ := hw
      constructor
      · rintro ⟨-, -, -, -, hcon⟩
        cases hcon
      · rintro ⟨⟨-, -, hl, -, -⟩, hne⟩
        exact absurd (hl.symm.trans hlane) hne
    · rw [h]
      constructor
      · rintro hw'
        exact ⟨hw', fun hl => hw (hl ▸ hw')⟩
      · exact fun h => h.1
  have hlanes : ∀ l, l ≠ lane → (s.closeLane lane).lanes l = s.lanes l := by
    intro l hl
    rw [hclosed, setLane_other _ _ _ hl]
  have hlane : (s.closeLane lane).lanes lane =
      { s.lanes lane with queue := { (s.lanes lane).queue with len := 0 } } := by
    rw [hclosed, setLane_same]
  have hwaiters : (s.closeLane lane).waiters = ws := by rw [hclosed]; rfl
  have hseq : (s.closeLane lane).seq = s.seq := by rw [hclosed]; rfl
  have hquiet : Quiet s (s.closeLane lane) :=
    { seq := hseq
      cfg := by rw [hclosed]; rfl
      bucket := by rw [hclosed]; rfl
      request := fun id => by rw [hwaiters]; exact ⟨(hsame id).1, (hsame id).2.1⟩
      dispatched := fun id => by rw [hwaiters]; exact (hsame id).2.2.1
      cancelled := fun id => by rw [hwaiters]; exact (hsame id).2.2.2
      lanes := fun l => by
        by_cases hl : l = lane
        · rw [hl, hlane]
          exact ⟨rfl, rfl⟩
        · rw [hlanes l hl]
          exact ⟨rfl, rfl⟩ }
  refine hquiet.good hi ⟨fun l => ?_, fun l id => ?_, fun id => ?_, fun id => ?_,
    fun id => ?_⟩
  · by_cases hl : l = lane
    · rw [hl, hlane]
      exact Lib.Heap.nil_valid _ _
    · rw [hlanes l hl, hwaiters]
      exact (hi.queued.valid l).congr fun x y _ _ => less_congr (hsame x).1 (hsame y).1
  · rw [hstill]
    by_cases hl : l = lane
    · rw [hl, hlane]
      simp [Lib.Heap.Mem]
    · rw [hlanes l hl, hi.queued.mem]
      simp [hl]
  · rw [hwaiters]
    rcases hwaits id with ⟨hw, h⟩ | ⟨-, h⟩
    · rw [h]
      simp [hw.2.2.2.1]
    · rw [h]
      exact hi.queued.apart id
  · rw [hwaiters, hseq]
    intro hlt
    rcases hwaits id with ⟨hw, -⟩ | ⟨-, h⟩
    · have := hw.2.1
      omega
    · rw [h]
      exact hi.queued.unmade id hlt
  · rw [hwaiters]
    rcases hwaits id with ⟨-, h⟩ | ⟨-, h⟩
    · rw [h]
      intro _ hcan
      cases hcan
    · rw [h]
      exact hi.queued.unsent id

theorem good_close (hi : s.Inv released) : Good released s (s.close, []) := by
  have hflag := (alike_counters s s.slowAt s.refused s.trips true).good hi
  have hfirst := good_closeLane hflag.1 .graphQL
  exact Good.after hflag.2 (Good.after hfirst.2 (good_closeLane hfirst.1 .rest))

/-! ### Joining -/

/-- A new waiter is queued on the lane of its request. -/
structure Joins (now : Time) (s s' : Scheduler) : Prop where
  seq : s'.seq = s.seq + 1
  waiter : (s'.waiters (s.seq + 1)).enqueued = now ∧
    (s'.waiters (s.seq + 1)).dispatched = false ∧
    (s'.waiters (s.seq + 1)).cancelled = false
  other : ∀ i, i ≠ s.seq + 1 → s'.waiters i = s.waiters i

theorem inv_enqueue (hi : s.Inv released) (now : Time) (r : Request) :
    (s.enqueue now r).Inv released ∧ Joins now s (s.enqueue now r) := by
  let ws : Nat → Waiter := fun i =>
    if i = s.seq + 1 then { req := r, enqueued := now } else s.waiters i
  have hnew : ws (s.seq + 1) = { req := r, enqueued := now } := if_pos rfl
  have hother : ∀ i, i ≠ s.seq + 1 → ws i = s.waiters i := fun i h => if_neg h
  have hwaiters : (s.enqueue now r).waiters = ws := rfl
  have hlane : (s.enqueue now r).lanes r.lane =
      { s.lanes r.lane with
        queue := (s.lanes r.lane).queue.push (less ws) (s.seq + 1) } := setLane_same ..
  have hlanes : ∀ l, l ≠ r.lane → (s.enqueue now r).lanes l = s.lanes l :=
    fun l hl => setLane_other _ _ _ hl
  -- the new id is in no queue, so the order of each stays the same
  have hout : ∀ l, ¬ (s.lanes l).queue.Mem (s.seq + 1) := by
    intro l hmem
    have := ((hi.queued.mem l _).mp hmem).2.1
    omega
  have hvalid : ∀ l, (s.lanes l).queue.Valid (less ws) := by
    intro l
    refine (hi.queued.valid l).congr fun x y hx hy => ?_
    have hx' : x ≠ s.seq + 1 := fun h => hout l (h ▸ hx)
    have hy' : y ≠ s.seq + 1 := fun h => hout l (h ▸ hy)
    exact less_congr (by rw [hother x hx']) (by rw [hother y hy'])
  have hwaiting : ∀ l id, (s.enqueue now r).Waiting l id ↔
      s.Waiting l id ∨ (l = r.lane ∧ id = s.seq + 1) := by
    intro l id
    show (0 < id ∧ id ≤ s.seq + 1 ∧ (ws id).req.lane = l ∧ (ws id).dispatched = false ∧
      (ws id).cancelled = false) ↔ _
    by_cases hid : id = s.seq + 1
    · subst hid
      rw [hnew]
      have hnot : ¬ s.Waiting l (s.seq + 1) := fun h => by
        have := h.2.1
        omega
      simp [hnot, eq_comm]
    · rw [hother id hid]
      unfold Waiting
      constructor
      · rintro ⟨h0, hle, hrest⟩
        exact .inl ⟨h0, by omega, hrest⟩
      · rintro (⟨h0, hle, hrest⟩ | ⟨-, h⟩)
        · exact ⟨h0, by omega, hrest⟩
        · exact absurd h hid
  refine ⟨⟨⟨fun l => ?_, fun l id => ?_, fun id => ?_, fun id => ?_, fun id => ?_⟩,
    ⟨fun id hrel => ?_, fun l => ?_, fun l => ?_⟩, hi.rated.pos, hi.rated.refillPer⟩,
    rfl, ?_, hother⟩
  · rw [hwaiters]
    by_cases hl : l = r.lane
    · rw [hl, hlane]
      exact Lib.Heap.push_valid (less_strictWeak _) (hvalid _) (hout _)
    · rw [hlanes l hl]
      exact hvalid l
  · rw [hwaiting]
    by_cases hl : l = r.lane
    · rw [hl, hlane]
      simp [Lib.Heap.push_mem, hi.queued.mem]
    · rw [hlanes l hl, hi.queued.mem]
      simp [hl]
  · rw [hwaiters]
    by_cases hid : id = s.seq + 1
    · rw [hid, hnew]
      exact fun _ => rfl
    · rw [hother id hid]
      exact hi.queued.apart id
  · intro hlt
    have hlt' : s.seq + 1 < id := hlt
    rw [hwaiters, hother id (by omega)]
    exact hi.queued.unmade id (by omega)
  · rw [hwaiters]
    by_cases hid : id = s.seq + 1
    · rw [hid, hnew]
      exact fun _ _ => rfl
    · rw [hother id hid]
      exact hi.queued.unsent id
  · have hdis := hi.counted.dispatched id hrel
    have hid : id ≠ s.seq + 1 := by
      rintro rfl
      rw [(hi.queued.unmade _ (Nat.lt_succ_self _)).1] at hdis
      cases hdis
    rw [hwaiters, hother id hid]
    exact hdis
  · have hheld : (s.enqueue now r).held released l = s.held released l := by
      ext id
      show id ∈ (Finset.range (s.seq + 1 + 1)).filter (fun id => (ws id).req.lane = l ∧
        (ws id).dispatched = true ∧ released id = false) ↔ _
      unfold held
      by_cases hid : id = s.seq + 1
      · subst hid
        simp [hnew]
      · simp only [Finset.mem_filter, Finset.mem_range, hother id hid]
        have : id < s.seq + 1 + 1 ↔ id < s.seq + 1 := by omega
        rw [this]
    rw [hheld]
    by_cases hl : l = r.lane
    · rw [hl, hlane]
      exact hi.counted.inFlight _
    · rw [hlanes l hl]
      exact hi.counted.inFlight l
  · by_cases hl : l = r.lane
    · rw [hl, hlane]
      exact hi.counted.le_max _
    · rw [hlanes l hl]
      exact hi.counted.le_max l
  · rw [hwaiters, hnew]
    exact ⟨rfl, rfl, rfl⟩

/-- `acquire` refuses, and moves nobody, or queues a new waiter and kicks its lane. -/
theorem acquire_cases (hi : s.Inv released) (now : Time) (c : Call) :
    (∃ err s', s.acquire now c = (.error err, s', []) ∧ Alike s s') ∨
      ∃ s', s.acquire now c = (.ok (s.seq + 1), s'.kickLocked c.request.lane now) ∧
        s'.Inv released ∧ Joins now s s' := by
  unfold acquire
  dsimp only
  split
  · exact .inl ⟨_, s, rfl, Alike.refl s⟩
  have hlike : Alike s { s with bucket := s.bucket.refill now } :=
    alike_bucket (Bucket.refill_shape _ _)
  split
  · exact .inl ⟨_, _, rfl, hlike.trans (alike_counters _ now (s.refused + 1) s.trips s.closed)⟩
  · have hjoin := inv_enqueue (hlike.inv hi) now c.request
    exact .inr ⟨_, rfl, hjoin.1, hjoin.2.seq, hjoin.2.waiter, hjoin.2.other⟩

end Scheduler

/-! ## Runs -/

namespace World

open Scheduler

variable {w w' : World}

/-- Its `Release` was called. -/
def released (w : World) (id : Nat) : Bool := (w.callers id).any Caller.released

/-- What the caller knows is so: it has its `Release` only if its waiter was dispatched,
and it left without one only if its waiter was cancelled. -/
def Caller.Agrees (waiter : Waiter) (c : Caller) : Prop :=
  match c.phase with
  | .waiting => c.released = false
  | .granted => waiter.dispatched = true
  | _ => c.released = false ∧ waiter.cancelled = true

/-- The invariant of runs. -/
structure Inv (w : World) : Prop where
  sched : w.sched.Inv w.released
  agrees : ∀ id c, w.callers id = some c → Caller.Agrees (w.sched.waiters id) c
  made : ∀ id, (w.callers id).isSome ↔ 0 < id ∧ id ≤ w.sched.seq
  enqueued : ∀ id, 0 < id → id ≤ w.sched.seq → (w.sched.waiters id).enqueued ≤ w.clock
  fifo : ∀ a b, 0 < a → a ≤ b → b ≤ w.sched.seq →
    (w.sched.waiters a).enqueued ≤ (w.sched.waiters b).enqueued
  dispatched : ∀ id, (w.sched.waiters id).dispatched = true ↔ id ∈ w.grants.map Grant.id
  nodup : (w.grants.map Grant.id).Nodup
  sound : ∀ g ∈ w.grants, g.Sound

theorem Caller.Agrees.mono {c : Caller} {a b : Waiter} (h : Caller.Agrees a c)
    (hd : a.dispatched = true → b.dispatched = true)
    (hc : a.cancelled = true → b.cancelled = true) : Caller.Agrees b c := by
  unfold Caller.Agrees at *
  split at h
  · exact h
  · exact hd h
  · exact ⟨h.1, hc h.2⟩

/-- What an event does to the runs: it keeps the invariant, and what is cancelled stays
so. -/
def Next (w w' : World) : Prop :=
  w'.Inv ∧ ∀ id, (w.sched.waiters id).cancelled = true →
    (w'.sched.waiters id).cancelled = true

/-- An event that makes no waiter keeps the invariant when its critical section is good
and the callers it changes agree with what it left. -/
theorem Inv.of_good {gs : List Grant} (hi : w.Inv) (hclock : w.clock ≤ w'.clock)
    (hgrants : w'.grants = w.grants ++ gs) (hgood : Good w'.released w.sched (w'.sched, gs))
    (hcallers : ∀ id c, w'.callers id = some c →
      w.callers id = some c ∨ Caller.Agrees (w'.sched.waiters id) c)
    (hsome : ∀ id, (w'.callers id).isSome = (w.callers id).isSome) : Next w w' := by
  obtain ⟨hinv, hmoves⟩ := hgood
  have hdis : ∀ id, (w'.sched.waiters id).dispatched = true ↔ id ∈ w'.grants.map Grant.id := by
    intro id
    rw [hmoves.dispatched, hi.dispatched, hgrants, List.map_append, List.mem_append]
  refine ⟨⟨hinv, fun id c hc => ?_, fun id => ?_, fun id h0 hle => ?_,
    fun a b h0 hab hle => ?_, hdis, ?_, fun g hg => ?_⟩, hmoves.cancelled⟩
  · rcases hcallers id c hc with hold | hnew
    · exact (hi.agrees id c hold).mono (fun h => (hmoves.dispatched id).mpr (.inl h))
        (hmoves.cancelled id)
    · exact hnew
  · rw [hsome, hmoves.seq]
    exact hi.made id
  · rw [hmoves.seq] at hle
    rw [(hmoves.kept id).2]
    exact (hi.enqueued id h0 hle).trans hclock
  · rw [hmoves.seq] at hle
    rw [(hmoves.kept a).2, (hmoves.kept b).2]
    exact hi.fifo a b h0 hab hle
  · rw [hgrants, List.map_append, List.nodup_append]
    refine ⟨hi.nodup, hmoves.nodup, fun a ha b hb heq => ?_⟩
    have hfresh := hmoves.fresh b hb
    rw [← heq, (hi.dispatched a).mpr ha] at hfresh
    cases hfresh
  · rw [hgrants, List.mem_append] at hg
    exact hg.elim (hi.sound g) (hmoves.sound g)

/-- An event that leaves the callers alone. -/
theorem Inv.of_commit {r : Scheduler × List Grant} (hi : w.Inv)
    (hgood : Good w.released w.sched r) : Next w (w.commit r) :=
  hi.of_good le_rfl rfl hgood (fun _ _ hc => .inl hc) fun _ => rfl

section SetCaller

variable (w : World) (id : Nat) (c : Caller)

theorem setCaller_same : (w.setCaller id c).callers id = some c := if_pos rfl

theorem setCaller_other {i : Nat} (h : i ≠ id) :
    (w.setCaller id c).callers i = w.callers i := if_neg h

/-- A caller whose `Release` is called or not as before. -/
theorem setCaller_released (h : c.released = w.released id) :
    (w.setCaller id c).released = w.released := by
  funext i
  unfold released
  by_cases hi : i = id
  · subst hi
    rw [setCaller_same]
    exact h
  · rw [setCaller_other _ _ _ hi]

end SetCaller

/-- An event that moves one caller on. -/
theorem Inv.of_setCaller {r : Scheduler × List Grant} {id : Nat} {c : Caller} (hi : w.Inv)
    (hmade : (w.callers id).isSome) (hgood : Good ((w.commit r).setCaller id c).released w.sched r)
    (hagree : Caller.Agrees (r.1.waiters id) c) : Next w ((w.commit r).setCaller id c) := by
  refine hi.of_good le_rfl rfl hgood (fun i c' hc => ?_) fun i => ?_
  · by_cases h : i = id
    · subst h
      rw [setCaller_same, Option.some.injEq] at hc
      subst hc
      exact .inr hagree
    · rw [setCaller_other _ _ _ h] at hc
      exact .inl hc
  · by_cases h : i = id
    · subst h
      rw [setCaller_same, hmade]
      rfl
    · rw [setCaller_other _ _ _ h]
      rfl

theorem at_iff {id : Nat} {phase : Phase} :
    w.At id phase ↔ ∃ r, w.callers id = some { phase, released := r } := by
  unfold At
  constructor
  · intro h
    obtain ⟨c, hc, rfl⟩ := Option.map_eq_some_iff.mp h
    exact ⟨c.released, hc⟩
  · rintro ⟨r, hr⟩
    rw [hr]
    rfl

/-- A caller still in `Acquire` has no `Release` to call. -/
theorem Inv.not_released {id : Nat} {phase : Phase} (hi : w.Inv) (hat : w.At id phase)
    (hne : phase ≠ .granted) : w.released id = false := by
  obtain ⟨r, hr⟩ := at_iff.mp hat
  have hagree := hi.agrees id _ hr
  unfold released
  rw [hr]
  cases phase with
  | granted => exact absurd rfl hne
  | waiting => exact hagree
  | refusing => exact hagree.1
  | refused err => exact hagree.1
  | ctxDone => exact hagree.1

/-- Moving on a caller still in `Acquire` releases nothing. -/
theorem Inv.released_setCaller {id : Nat} {phase : Phase} (hi : w.Inv) (hat : w.At id phase)
    (hne : phase ≠ .granted) (r : Scheduler × List Grant) (next : Phase) :
    ((w.commit r).setCaller id { phase := next }).released = w.released :=
  setCaller_released _ _ _ (hi.not_released hat hne).symm

theorem At.isSome {id : Nat} {phase : Phase} (h : w.At id phase) : (w.callers id).isSome := by
  obtain ⟨r, hr⟩ := at_iff.mp h
  rw [hr]
  rfl

/-- What `Acquire` returns agrees with the waiter that was signalled. -/
theorem outcome_agrees {s : Scheduler} {id : Nat} {waiter : Waiter}
    (hgone : waiter.dispatched = true ∨ waiter.cancelled = true)
    (hcan : waiter.cancelled = (s.waiters id).cancelled) :
    Caller.Agrees waiter { phase := outcome s id } := by
  unfold outcome
  by_cases h : (s.waiters id).cancelled = true
  · rw [if_pos h]
    exact ⟨rfl, hcan.trans h⟩
  · rw [if_neg h]
    rcases hgone with hd | hc
    · exact hd
    · exact absurd (hcan.symm.trans hc) h

theorem Inv.of_leave {id : Nat} {left : Phase} (hi : w.Inv) (hat : w.At id .waiting)
    (hleft : ∀ waiter : Waiter, waiter.cancelled = true → Caller.Agrees waiter { phase := left }) :
    Next w (w.leave id left) := by
  obtain ⟨h0, hle⟩ := (hi.made id).mp hat.isSome
  obtain ⟨hgood, hend⟩ := good_abandon hi.sched w.clock h0 hle
  unfold leave
  dsimp only
  refine hi.of_setCaller hat.isSome ?_ ?_
  · rw [hi.released_setCaller hat (by simp)]
    exact hgood
  · rcases hend with ⟨hstay, hdis⟩ | ⟨hgone, hcan⟩
    · have hdis' := (hgood.2.dispatched id).mpr (.inl hdis)
      rw [hstay]
      exact outcome_agrees (.inl hdis') rfl
    · rw [hgone]
      exact hleft _ hcan

theorem Inv.of_acquire (hi : w.Inv) (c : Call) {w' : World}
    (h : w.exec (.acquire c) = some w') : Next w w' := by
  simp only [exec] at h
  rcases acquire_cases hi.sched w.clock c with ⟨err, s', heq, hlike⟩ | ⟨s', heq, hinv, hjoin⟩
  · rw [heq] at h
    cases h
    exact hi.of_commit (hlike.good hi.sched)
  · rw [heq] at h
    cases h
    obtain ⟨henq, hdis, hcan⟩ := hjoin.waiter
    have hnone : w.callers (w.sched.seq + 1) = none := by
      rw [← Option.not_isSome_iff_eq_none, hi.made]
      omega
    -- the waiter is made first, and then its lane is kicked
    let w₁ : World := ({ w with sched := s' } : World).setCaller (w.sched.seq + 1)
      { phase := .waiting }
    have hrel : w₁.released = w.released :=
      setCaller_released _ _ _ (by unfold released; dsimp only; rw [hnone]; rfl)
    have h₁ : w₁.Inv := by
      refine ⟨by rw [hrel]; exact hinv, fun id c hc => ?_, fun id => ?_, fun id h0 hle => ?_,
        fun a b h0 hab hle => ?_, fun id => ?_, hi.nodup, hi.sound⟩
      · by_cases hid : id = w.sched.seq + 1
        · subst hid
          rw [setCaller_same, Option.some.injEq] at hc
          subst hc
          rfl
        · rw [setCaller_other _ _ _ hid] at hc
          show Caller.Agrees (s'.waiters id) c
          rw [hjoin.other id hid]
          exact hi.agrees id c hc
      · show _ ↔ 0 < id ∧ id ≤ s'.seq
        rw [hjoin.seq]
        by_cases hid : id = w.sched.seq + 1
        · subst hid
          rw [setCaller_same]
          simp
        · rw [setCaller_other _ _ _ hid]
          have := hi.made id
          dsimp only
          rw [this]
          omega
      · show (s'.waiters id).enqueued ≤ w.clock
        by_cases hid : id = w.sched.seq + 1
        · rw [hid, henq]
        · have hle' : id ≤ s'.seq := hle
          rw [hjoin.other id hid]
          rw [hjoin.seq] at hle'
          exact hi.enqueued id h0 (by omega)
      · show (s'.waiters a).enqueued ≤ (s'.waiters b).enqueued
        have hle' : b ≤ s'.seq := hle
        rw [hjoin.seq] at hle'
        by_cases hb : b = w.sched.seq + 1
        · rw [hb, henq]
          by_cases ha : a = w.sched.seq + 1
          · rw [ha, henq]
          · rw [hjoin.other a ha]
            exact hi.enqueued a h0 (by omega)
        · rw [hjoin.other b hb, hjoin.other a (by omega)]
          exact hi.fifo a b h0 hab (by omega)
      · show (s'.waiters id).dispatched = true ↔ _
        by_cases hid : id = w.sched.seq + 1
        · have hold := hi.dispatched (w.sched.seq + 1)
          rw [(hi.sched.queued.unmade _ (Nat.lt_succ_self _)).1] at hold
          rw [hid, hdis]
          exact hold
        · rw [hjoin.other id hid]
          exact hi.dispatched id
    have hnext := h₁.of_commit (good_kickLocked h₁.sched c.request.lane w.clock)
    refine ⟨hnext.1, fun id hc => hnext.2 id ?_⟩
    have hid : id ≠ w.sched.seq + 1 := by
      rintro rfl
      rw [(hi.sched.queued.unmade _ (Nat.lt_succ_self _)).2] at hc
      cases hc
    show (s'.waiters id).cancelled = true
    rw [hjoin.other id hid]
    exact hc

theorem Inv.step {op : Op} (hi : w.Inv) (h : Step w op w') : Next w w' := by
  unfold Step at h
  cases op with
  | acquire c => exact hi.of_acquire c h
  | advance d =>
    cases h
    exact hi.of_good (by simp) (by simp) ⟨hi.sched, Moves.refl _⟩
      (fun _ _ hc => .inl hc) fun _ => rfl
  | wake id =>
    simp only [exec] at h
    split at h
    · next hcan =>
      obtain ⟨hat, hready⟩ := hcan
      cases h
      have hgone : (w.sched.waiters id).dispatched = true ∨
          (w.sched.waiters id).cancelled = true := by
        by_contra hcon
        simp only [not_or, Bool.not_eq_true] at hcon
        exact hready (hi.sched.queued.unsent id hcon.1 hcon.2)
      have hgood := good_signal hi.sched (if (w.sched.waiters id).ready = .sent then .empty
        else (w.sched.waiters id).ready) hgone
      have hgone' := hgone.imp (fun h => (hgood.2.dispatched id).mpr (.inl h))
        (hgood.2.cancelled id)
      have hnext := hi.of_setCaller hat.isSome (r := (_, []))
        (by rw [hi.released_setCaller hat (by simp)]; exact hgood)
        (outcome_agrees hgone' rfl)
      simpa [commit] using hnext
    · cases h
  | giveUp id =>
    simp only [exec] at h
    split at h
    · next hat =>
      cases h
      exact hi.of_leave hat fun _ hc => ⟨rfl, hc⟩
    · cases h
  | timeOut id =>
    simp only [exec] at h
    split at h
    · next hat =>
      cases h
      exact hi.of_leave hat fun _ hc => ⟨rfl, hc⟩
    · cases h
  | refuse id =>
    simp only [exec] at h
    split at h
    · next hat =>
      cases h
      have hgood := good_refuse hi.sched w.clock id
      obtain ⟨r, hr⟩ := at_iff.mp hat
      have hcan := (hi.agrees id _ hr).2
      have hnext := hi.of_setCaller (r := ((w.sched.refuse w.clock id).2, [])) hat.isSome
        (c := { phase := .refused (w.sched.refuse w.clock id).1 })
        (by rw [hi.released_setCaller hat (by simp)]; exact hgood) ⟨rfl, hcan⟩
      simpa [commit] using hnext
    · cases h
  | release id actual =>
    simp only [exec] at h
    split at h
    · next hcaller =>
      cases h
      have hsome : (w.callers id).isSome := by rw [hcaller]; rfl
      obtain ⟨-, hle⟩ := (hi.made id).mp hsome
      have hdis := hi.agrees id _ hcaller
      have hfree : w.released id = false := by
        unfold released
        rw [hcaller]
        rfl
      have hgood := good_release hi.sched w.clock actual hle hdis hfree
      have hrel : ((w.commit (w.sched.release w.clock id actual)).setCaller id
          { phase := .granted, released := true }).released = releasing w.released id := by
        funext i
        unfold releasing
        by_cases hid : i = id
        · subst hid
          unfold released
          rw [setCaller_same, if_pos rfl]
          rfl
        · unfold released
          rw [setCaller_other _ _ _ hid, if_neg hid]
          rfl
      refine hi.of_setCaller hsome ?_ ?_
      · rw [hrel]
        exact hgood
      · exact (hgood.2.dispatched id).mpr (.inl hdis)
    · cases h
      exact ⟨hi, fun _ hc => hc⟩
    · cases h
  | trip lane retryAfter remaining =>
    cases h
    exact hi.of_commit (good_trip hi.sched _ _ _ _)
  | tick lane =>
    cases h
    exact hi.of_commit (good_tick hi.sched _ _)
  | snapshot =>
    cases h
    simpa [commit] using hi.of_commit (good_snapshot hi.sched w.clock)
  | close =>
    cases h
    simpa [commit] using hi.of_commit (good_close hi.sched)

theorem normalized_capacity_pos (c : Config) : 0 < c.normalized.capacity := by
  unfold Config.normalized
  dsimp only
  split
  · split
    · norm_num
    · next h => exact not_le.mp h
  · next h => exact not_le.mp h

theorem normalized_refill_pos (c : Config) : 0 < c.normalized.refillPerSec := by
  by_cases h : c.refillPerSec ≤ 0
  · have hrate : c.normalized.refillPerSec = c.normalized.capacity / 60 := if_pos h
    rw [hrate]
    exact div_pos (normalized_capacity_pos c) (by norm_num)
  · have hrate : c.normalized.refillPerSec = c.refillPerSec := if_neg h
    rw [hrate]
    exact not_le.mp h

theorem normalized_max_pos (c : Config) :
    0 < c.normalized.maxInFlight ∧ 0 < c.normalized.maxInFlightREST := by
  unfold Config.normalized
  dsimp only
  constructor <;> split <;> omega

theorem init_inv (cfg : Config) (now : Time) : (init cfg now).Inv := by
  have hempty : ∀ l, ((newScheduler cfg now).lanes l).queue.len = 0 ∧
      ((newScheduler cfg now).lanes l).inFlight = 0 ∧
      0 < ((newScheduler cfg now).lanes l).max := by
    intro l
    cases l with
    | graphQL => exact ⟨rfl, rfl, (normalized_max_pos cfg).1⟩
    | rest => exact ⟨rfl, rfl, (normalized_max_pos cfg).2⟩
  have hqueued : (newScheduler cfg now).Queued := by
    refine ⟨fun l => ?_, fun l id => ?_, fun id h => (nomatch h), fun id _ => ⟨rfl, rfl⟩,
      fun id _ _ => rfl⟩
    · cases l <;> exact Lib.Heap.nil_valid _ _
    · constructor
      · rintro ⟨k, hk, -⟩
        rw [(hempty l).1] at hk
        exact absurd hk (Nat.not_lt_zero k)
      · rintro ⟨h0, hle, -⟩
        have hle' : id ≤ 0 := hle
        omega
  have hcounted : (newScheduler cfg now).Counted (init cfg now).released := by
    refine ⟨fun id h => (nomatch h), fun l => ?_, fun l => ?_⟩
    · rw [(hempty l).2.1, eq_comm, Nat.cast_eq_zero, Finset.card_eq_zero,
        Finset.eq_empty_iff_forall_notMem]
      intro id hid
      exact (nomatch (Finset.mem_filter.mp hid).2.2.1)
    · rw [(hempty l).2.1]
      exact (hempty l).2.2.le
  refine ⟨⟨hqueued, hcounted, normalized_refill_pos cfg, rfl⟩, fun id c h => (nomatch h),
    fun id => ?_, fun id h0 hle => ?_, fun a b h0 hab hle => ?_, fun id => ?_,
    List.nodup_nil, fun g h => (nomatch h)⟩
  · constructor
    · exact fun h => (nomatch h)
    · rintro ⟨h0, hle⟩
      have hle' : id ≤ 0 := hle
      omega
  · have hle' : id ≤ 0 := hle
    omega
  · have hle' : b ≤ 0 := hle
    omega
  · constructor
    · exact fun h => (nomatch h)
    · exact fun h => (nomatch h)

/-! ## What holds in every state reached -/

/-- The requests of the lane that were dispatched. -/
def dispatchedOn (w : World) (lane : Lane) : Finset Nat :=
  (Finset.range (w.sched.seq + 1)).filter fun id =>
    (w.sched.waiters id).req.lane = lane ∧ (w.sched.waiters id).dispatched = true

/-- The requests of the lane whose `Release` was called. -/
def releasedOn (w : World) (lane : Lane) : Finset Nat :=
  (Finset.range (w.sched.seq + 1)).filter fun id =>
    (w.sched.waiters id).req.lane = lane ∧ w.released id = true

/-- Safety: the in-flight count of a lane is what was dispatched less what was released,
between zero and the maximum; a waiter is granted at most once, and a granted one was and
is not cancelled; every grant is sound, and who has the lower number queued no later. -/
structure Safe (w : World) : Prop where
  counted : ∀ lane, (w.sched.lanes lane).inFlight =
    ((w.dispatchedOn lane).card : Int) - (w.releasedOn lane).card
  bounds : ∀ lane, 0 ≤ (w.sched.lanes lane).inFlight ∧
    (w.sched.lanes lane).inFlight ≤ (w.sched.lanes lane).max
  once : (w.grants.map Grant.id).Nodup
  granted : ∀ id, (w.sched.waiters id).dispatched = true ↔ id ∈ w.grants.map Grant.id
  uncancelled : ∀ id ∈ w.grants.map Grant.id, (w.sched.waiters id).cancelled = false
  sound : ∀ g ∈ w.grants, g.Sound
  oldest : ∀ a b, 0 < a → a ≤ b → b ≤ w.sched.seq →
    (w.sched.waiters a).enqueued ≤ (w.sched.waiters b).enqueued

theorem Inv.held_card (hi : w.Inv) (lane : Lane) :
    ((w.sched.held w.released lane).card : Int) =
      ((w.dispatchedOn lane).card : Int) - (w.releasedOn lane).card := by
  have hsub : w.releasedOn lane ⊆ w.dispatchedOn lane := by
    intro id hid
    obtain ⟨hrange, hlane, hrel⟩ := Finset.mem_filter.mp hid
    exact Finset.mem_filter.mpr ⟨hrange, hlane, hi.sched.counted.dispatched id hrel⟩
  have hheld : w.sched.held w.released lane = w.dispatchedOn lane \ w.releasedOn lane := by
    ext id
    simp only [held, dispatchedOn, releasedOn, Finset.mem_filter, Finset.mem_sdiff, not_and,
      Bool.not_eq_true]
    constructor
    · rintro ⟨hrange, hlane, hdis, hrel⟩
      exact ⟨⟨hrange, hlane, hdis⟩, fun _ _ => hrel⟩
    · rintro ⟨⟨hrange, hlane, hdis⟩, hrel⟩
      exact ⟨hrange, hlane, hdis, hrel hrange hlane⟩
  have hle := Finset.card_le_card hsub
  rw [hheld, Finset.card_sdiff_of_subset hsub]
  omega

theorem Inv.safe (hi : w.Inv) : w.Safe where
  counted lane := by rw [hi.sched.counted.inFlight, hi.held_card]
  bounds lane := by
    refine ⟨?_, hi.sched.counted.le_max lane⟩
    rw [hi.sched.counted.inFlight]
    exact Int.natCast_nonneg _
  once := hi.nodup
  granted := hi.dispatched
  uncancelled id hid := hi.sched.queued.apart id ((hi.dispatched id).mpr hid)
  sound := hi.sound
  oldest := hi.fifo

end World

/-- The scheduler is safe in every state of every run, and a waiter once cancelled is
granted neither before nor after. -/
theorem scheduler_safe {cfg : Config} {now : Time} {es fs : List Op} {w w' : World}
    (h : Lib.Run Step Lib.always (World.init cfg now) es w)
    (h' : Lib.Run Step Lib.always w fs w') :
    w'.Safe ∧ ∀ id, (w.sched.waiters id).cancelled = true → id ∉ w'.grants.map Grant.id := by
  have hi : w.Inv :=
    h.invariant (World.init_inv cfg now) fun _ _ _ hi _ hstep => (hi.step hstep).1
  have hkept : World.Next w w' := by
    refine h'.invariant ⟨hi, fun _ hc => hc⟩ fun s op t hs _ hstep => ?_
    have hnext := hs.1.step hstep
    exact ⟨hnext.1, fun id hc => hnext.2 id (hs.2 id hc)⟩
  refine ⟨hkept.1.safe, fun id hc hmem => ?_⟩
  have hfalse := hkept.1.safe.uncancelled id hmem
  rw [hkept.2 id hc] at hfalse
  cases hfalse

/-! A run: with one slot, of three callers the first holds it, the second gives up, and the
third is granted when the slot comes back. -/

namespace World

/-- The state after the events, if each of them can happen. -/
def run (w : World) : List Op → Option World
  | [] => some w
  | op :: ops => (w.exec op).bind fun w' => w'.run ops

theorem run_getD (ops : List Op) :
    ∀ w : World, (w.run ops).isSome → Lib.Run Step Lib.always w ops ((w.run ops).getD w) := by
  induction ops with
  | nil => exact fun _ _ => .nil
  | cons op ops ih =>
    intro w h
    unfold run at h ⊢
    cases hstep : w.exec op with
    | none =>
      rw [hstep] at h
      cases h
    | some w' =>
      rw [hstep, Option.bind_some] at h
      have hrest := ih w' h
      have hsame : (w'.run ops).getD w = (w'.run ops).getD w' := by
        obtain ⟨w'', hw''⟩ := Option.isSome_iff_exists.mp h
        rw [hw'']
        rfl
      rw [Option.bind_some, hsame]
      exact .cons trivial hstep hrest

end World

def oneSlot : World := World.init { defaultConfig with maxInFlight := 1 } 1

def queueing : List Op :=
  [.acquire { lane := .graphQL, priority := 1, cost := 100 },
    .acquire { lane := .graphQL, priority := 2, cost := 50 },
    .acquire { lane := .graphQL, priority := 0, cost := 50 }, .wake 1, .giveUp 2]

def handingOver : List Op := [.advance 1000, .release 1 120, .wake 3]

def queued : World := (oneSlot.run queueing).getD oneSlot

def handedOver : World := (queued.run handingOver).getD queued

theorem scheduler_safe_oneSlot :
    handedOver.Safe ∧ handedOver.grants.map Grant.id = [1, 3] ∧
      2 ∉ handedOver.grants.map Grant.id := by
  have hsafe := scheduler_safe (World.run_getD queueing oneSlot (by decide +kernel))
    (World.run_getD handingOver queued (by decide +kernel))
  exact ⟨hsafe.1, by decide +kernel, hsafe.2 2 (by decide +kernel)⟩

end ApsBudget
