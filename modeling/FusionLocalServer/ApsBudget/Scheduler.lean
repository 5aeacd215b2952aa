import FusionLocalServer.Lib.Heap
import FusionLocalServer.ApsBudget.Bucket

/-!
# The request scheduler

Every upstream round trip is admitted against the points bucket in strict priority order,
with a cooldown per lane after a real refusal. The scheduler's methods run under its lock,
so each of their critical sections is one function here, with the time it reads as an
argument; `Acquire` is several, since it waits between them.

A waiter is referred to by its `seq`, which no other waiter has; `waiters` holds the
waiters ever made. What the source tells a waiter over its `ready` channel is the waiter's
`ready` field, and `kickLocked` also returns the grants it made, each with the scheduler
right before and right after it.
-/

namespace ApsBudget

inductive Lane where
  | graphQL
  | rest
deriving DecidableEq, Repr

inductive Priority where
  | p0
  | p1
  | p2
deriving DecidableEq, Repr

def Priority.rank : Priority → Nat
  | .p0 => 0
  | .p1 => 1
  | .p2 => 2

/-- Folds a value out of range onto the nearest class. -/
def clampPriority (p : Int) : Priority :=
  if p < 0 then .p0
  else if 2 < p then .p2
  else if p = 0 then .p0
  else if p = 1 then .p1
  else .p2

structure Config where
  fullQuota : Rat
  capacity : Rat
  refillPerSec : Rat
  maxInFlight : Int
  maxInFlightREST : Int
  /-- The share of the capacity that must be left after a request of the priority. -/
  reserveFloor : Priority → Rat
  /-- Zero means only the caller's deadline. -/
  maxQueueWait : Priority → Duration
  defaultCooldown : Duration
  maxCooldown : Duration
  slowWait : Duration
  slowWindow : Duration

def millisecond : Duration := 1000000

def defaultConfig : Config where
  fullQuota := 6000
  capacity := 6000
  refillPerSec := 0
  maxInFlight := 12
  maxInFlightREST := 6
  reserveFloor
    | .p0 => 0
    | .p1 => 1 / 10
    | .p2 => 35 / 100
  maxQueueWait
    | .p0 => 0
    | .p1 => 10 * second
    | .p2 => 2 * second
  defaultCooldown := 20 * second
  maxCooldown := 60 * second
  slowWait := 500 * millisecond
  slowWindow := 5 * second

def Config.normalized (c : Config) : Config :=
  let fullQuota := if c.fullQuota ≤ 0 then 6000 else c.fullQuota
  let capacity := if c.capacity ≤ 0 then fullQuota else c.capacity
  let defaultCooldown := if c.defaultCooldown ≤ 0 then 20 * second else c.defaultCooldown
  { c with
    fullQuota
    capacity
    refillPerSec := if c.refillPerSec ≤ 0 then capacity / 60 else c.refillPerSec
    maxInFlight := if c.maxInFlight ≤ 0 then 12 else c.maxInFlight
    maxInFlightREST := if c.maxInFlightREST ≤ 0 then 6 else c.maxInFlightREST
    defaultCooldown
    maxCooldown := if c.maxCooldown < defaultCooldown then defaultCooldown else c.maxCooldown
    slowWait := if c.slowWait ≤ 0 then 500 * millisecond else c.slowWait
    slowWindow := if c.slowWindow ≤ 0 then 5 * second else c.slowWindow }

/-- One round trip to be admitted. -/
structure Request where
  lane : Lane
  priority : Priority
  cost : Int
deriving DecidableEq

/-- What `Acquire` is called with. -/
structure Call where
  lane : Lane
  priority : Int
  cost : Int
  /-- The deadline of the caller's context. -/
  deadline : Option Time := none
deriving DecidableEq

def Call.request (c : Call) : Request :=
  let cost := if c.lane = .rest then 0 else c.cost
  { lane := c.lane, priority := clampPriority c.priority, cost := if cost < 0 then 0 else cost }

/-- The refusal of the scheduler itself, with `Queued` set. -/
structure RateLimitError where
  lane : Lane
  retryAfter : Duration
deriving DecidableEq

/-- The `ready` channel of a waiter, which buffers one signal. -/
inductive Ready where
  | empty
  | sent
  | closed
deriving DecidableEq, Repr

structure Waiter where
  req : Request
  enqueued : Time
  ready : Ready := .empty
  dispatched : Bool := false
  cancelled : Bool := false
deriving DecidableEq

structure LaneState where
  /-- The waiters' `seq`s. -/
  queue : Lib.Heap Nat := { len := 0, cell := fun _ => 0, index := fun _ => 0 }
  inFlight : Int := 0
  max : Int := 0
  cooldownUntil : Time := 0
  lastTrip : Time := 0
  lastCooldown : Duration := 0
  /-- When the armed timer is due. -/
  timer : Option Time := none

structure Scheduler where
  cfg : Config
  bucket : Bucket
  lanes : Lane → LaneState
  seq : Nat := 0
  slowAt : Time := 0
  refused : Int := 0
  trips : Int := 0
  closed : Bool := false
  waiters : Nat → Waiter

/-- A waiter that was never made. -/
def noWaiter : Waiter := { req := ⟨.graphQL, .p0, 0⟩, enqueued := 0 }

/-- `New`. -/
def newScheduler (cfg : Config) (now : Time) : Scheduler :=
  let cfg := cfg.normalized
  { cfg
    bucket := newBucket cfg.capacity cfg.refillPerSec now
    lanes
      | .graphQL => { max := cfg.maxInFlight }
      | .rest => { max := cfg.maxInFlightREST }
    waiters := fun _ => noWaiter }

/-- `Less` of the wait queue: strict priority, first come first served within. -/
def less (ws : Nat → Waiter) (a b : Nat) : Bool :=
  if (ws a).req.priority ≠ (ws b).req.priority then
    decide ((ws a).req.priority.rank < (ws b).req.priority.rank)
  else decide (a < b)

/-- A grant, with the scheduler around it. -/
structure Grant where
  id : Nat
  lane : Lane
  now : Time
  before : Scheduler
  after : Scheduler

namespace Scheduler

def setLane (s : Scheduler) (lane : Lane) (ln : LaneState) : Scheduler :=
  { s with lanes := fun l => if l = lane then ln else s.lanes l }

def setWaiter (s : Scheduler) (id : Nat) (w : Waiter) : Scheduler :=
  { s with waiters := fun i => if i = id then w else s.waiters i }

/-- `heap.Pop(&ln.queue)`. -/
def popHead (s : Scheduler) (lane : Lane) : Scheduler :=
  let ln := s.lanes lane
  s.setLane lane { ln with queue := ln.queue.pop (less s.waiters) }

/-- What must be in the bucket for a request to go. -/
def want (s : Scheduler) (priority : Priority) (points : Int) : Rat :=
  (points : Rat) + s.cfg.reserveFloor priority * s.cfg.capacity

/-- How long until the waiter at the head of the lane could go. -/
def headWait (s : Scheduler) (lane : Lane) (now : Time) (w : Waiter) : Duration :=
  let ln := s.lanes lane
  if now < ln.cooldownUntil then sub ln.cooldownUntil now
  else if lane = .graphQL then s.bucket.deficitWait (s.want w.req.priority w.req.cost)
  else 0

/-- Takes the head of the lane out of the queue and tells it to go. -/
def dispatch (s : Scheduler) (lane : Lane) (now : Time) (id : Nat) : Scheduler :=
  let w := s.waiters id
  let s := s.popHead lane
  let ln := s.lanes lane
  let s := s.setLane lane { ln with inFlight := ln.inFlight + 1 }
  let s := if lane = .graphQL then { s with bucket := s.bucket.take w.req.cost } else s
  let s := if s.cfg.slowWait ≤ sub now w.enqueued then { s with slowAt := now } else s
  s.setWaiter id { w with dispatched := true, ready := .sent }

/-- What one turn of the dispatching loop comes to. -/
inductive Turn where
  | stop (s : Scheduler)
  | skip (s : Scheduler)
  | grant (s : Scheduler) (id : Nat)

/-- One turn of the loop of `kickLocked`. -/
def turn (s : Scheduler) (lane : Lane) (now : Time) : Turn :=
  let ln := s.lanes lane
  if ln.queue.len = 0 then .stop s
  else
    let id := ln.queue.cell 0
    let w := s.waiters id
    if w.cancelled then .skip (s.popHead lane)
    else if ln.max ≤ ln.inFlight then .stop s
    else
      let wait := s.headWait lane now w
      if 0 < wait then
        if s.closed then .stop s
        else .stop (s.setLane lane { ln with timer := some (now + wait) })
      else .grant (s.dispatch lane now id) id

/-- The loop of `kickLocked`. A turn that does not end it takes a waiter off the queue. -/
def dispatchLoop (lane : Lane) (now : Time) : Nat → Scheduler → Scheduler × List Grant
  | 0, s => (s, [])
  | fuel + 1, s =>
    match s.turn lane now with
    | .stop s' => (s', [])
    | .skip s' => dispatchLoop lane now fuel s'
    | .grant s' id =>
      let (s'', gs) := dispatchLoop lane now fuel s'
      (s'', { id, lane, now, before := s, after := s' } :: gs)

def kickLocked (s : Scheduler) (lane : Lane) (now : Time) : Scheduler × List Grant :=
  let s := s.setLane lane { s.lanes lane with timer := none }
  let s := { s with bucket := s.bucket.refill now }
  dispatchLoop lane now (s.lanes lane).queue.len s

/-- The points of everything queued on the lane at the priority or above it. -/
def ahead (s : Scheduler) (lane : Lane) (priority : Priority) : Int :=
  let q := (s.lanes lane).queue
  (List.range q.len).foldl (fun ahead i =>
    let w := s.waiters (q.cell i)
    if !w.cancelled && !w.dispatched && w.req.priority.rank ≤ priority.rank then
      ahead + w.req.cost
    else ahead) 0

def expectedWaitLocked (s : Scheduler) (now : Time) (r : Request) : Duration :=
  let ln := s.lanes r.lane
  let wait := if now < ln.cooldownUntil then sub ln.cooldownUntil now else 0
  if r.lane = .graphQL then
    let d := s.bucket.deficitWait (s.want r.priority (r.cost + s.ahead r.lane r.priority))
    if wait < d then d else wait
  else wait

/-! ## The critical sections -/

/-- How long the request may sit queued; zero is no bound. -/
def allowed (s : Scheduler) (now : Time) (priority : Priority) (deadline : Option Time) :
    Duration :=
  let allowed := s.cfg.maxQueueWait priority
  match deadline with
  | none => allowed
  | some dl =>
    let rem := sub dl now
    if allowed = 0 ∨ rem < allowed then rem else allowed

/-- Makes a waiter for the request and pushes it on the queue of its lane. -/
def enqueue (s : Scheduler) (now : Time) (r : Request) : Scheduler :=
  let id := s.seq + 1
  let s := { s with seq := id }
  let s := s.setWaiter id { req := r, enqueued := now }
  let ln := s.lanes r.lane
  s.setLane r.lane { ln with queue := ln.queue.push (less s.waiters) id }

/-- `Acquire` up to where it waits: the request is refused, or its waiter is queued. -/
def acquire (s : Scheduler) (now : Time) (c : Call) :
    Except RateLimitError Nat × Scheduler × List Grant :=
  let r := c.request
  if s.closed then (.error ⟨r.lane, s.cfg.defaultCooldown⟩, s, [])
  else
    let s := { s with bucket := s.bucket.refill now }
    let allowed := s.allowed now r.priority c.deadline
    let expected := s.expectedWaitLocked now r
    if 0 < allowed ∧ allowed < expected then
      (.error ⟨r.lane, expected⟩, { s with refused := s.refused + 1, slowAt := now }, [])
    else
      let s := s.enqueue now r
      (.ok s.seq, s.kickLocked r.lane now)

/-- True when the caller must give up, which it need not when it was dispatched in the
meantime. -/
def abandon (s : Scheduler) (now : Time) (id : Nat) : Bool × Scheduler × List Grant :=
  let w := s.waiters id
  if w.dispatched then (false, s, [])
  else
    let s := s.setWaiter id { w with cancelled := true }
    let ln := s.lanes w.req.lane
    let i := ln.queue.index id
    let s := if i < ln.queue.len ∧ ln.queue.cell i = id then
        s.setLane w.req.lane { ln with queue := ln.queue.remove (less s.waiters) i }
      else s
    (true, s.kickLocked w.req.lane now)

/-- What `Acquire` does after `abandon` on a timeout: the error's wait, and the count. -/
def refuse (s : Scheduler) (now : Time) (id : Nat) : RateLimitError × Scheduler :=
  let r := (s.waiters id).req
  let s := { s with refused := s.refused + 1, slowAt := now }
  (⟨r.lane, s.expectedWaitLocked now r⟩, s)

/-- What the `Release` of a waiter does the first time. -/
def release (s : Scheduler) (now : Time) (id : Nat) (actual : Int) :
    Scheduler × List Grant :=
  let r := (s.waiters id).req
  let ln := s.lanes r.lane
  let s := s.setLane r.lane { ln with inFlight := ln.inFlight - 1 }
  let s := if r.lane = .graphQL then
      { s with bucket := s.bucket.correct r.cost actual }
    else s
  s.kickLocked r.lane now

/-- The callback of the lane's timer. -/
def tick (s : Scheduler) (now : Time) (lane : Lane) : Scheduler × List Grant :=
  if s.closed then (s, []) else s.kickLocked lane now

/-- How long an upstream refusal cools the lane down for. -/
def cooldown (s : Scheduler) (now : Time) (lane : Lane) (retryAfter : Duration) :
    Duration :=
  let ln := s.lanes lane
  let d :=
    if retryAfter ≤ 0 then
      if ln.lastTrip ≠ 0 ∧ sub now ln.lastTrip < minute ∧ 0 < ln.lastCooldown then
        truncate ((ln.lastCooldown : Rat) * (3 / 2))
      else s.cfg.defaultCooldown
    else retryAfter
  if s.cfg.maxCooldown < d then s.cfg.maxCooldown else d

/-- `Trip`; `remaining` is the quota the gateway reported, if it did. -/
def trip (s : Scheduler) (now : Time) (lane : Lane) (retryAfter : Duration)
    (remaining : Option Int) : Scheduler × List Grant :=
  let d := s.cooldown now lane retryAfter
  let ln := s.lanes lane
  let until' := now + d
  let s := s.setLane lane
    { ln with
      cooldownUntil := if ln.cooldownUntil < until' then until' else ln.cooldownUntil
      lastTrip := now
      lastCooldown := d }
  let s := { s with trips := s.trips + 1, slowAt := now }
  let s : Scheduler :=
    match remaining with
    | some points =>
      if lane = .graphQL then
        { s with bucket :=
            s.bucket.setLevel ((points : Rat) - (s.cfg.fullQuota - s.cfg.capacity)) }
      else s
    | none => s
  s.kickLocked lane now

/-- What taking a snapshot does to the scheduler. -/
def snapshot (s : Scheduler) (now : Time) : Scheduler :=
  { s with bucket := s.bucket.refill now }

/-- Refuses what is queued on one lane and empties it. -/
def closeLane (s : Scheduler) (lane : Lane) : Scheduler :=
  let ln := s.lanes lane
  let s := (List.range ln.queue.len).foldl (fun s i =>
    let id := ln.queue.cell i
    let w := s.waiters id
    if w.dispatched then s
    else s.setWaiter id { w with cancelled := true, ready := .closed }) s
  s.setLane lane { ln with queue := { ln.queue with len := 0 } }

/-- `Close`. A timer it stops may still fire; the callback does nothing then. -/
def close (s : Scheduler) : Scheduler :=
  let s := { s with closed := true }
  (s.closeLane .graphQL).closeLane .rest

end Scheduler

/-! ## Runs -/

/-- Where the goroutine that called `Acquire` is. -/
inductive Phase where
  | waiting
  /-- It timed out, and has the refusal still to count. -/
  | refusing
  /-- It has its `Release`. -/
  | granted
  | refused (err : RateLimitError)
  /-- It returned its context's error. -/
  | ctxDone
deriving DecidableEq

/-- The goroutine of a waiter, and the `once` of its `Release`. -/
structure Caller where
  phase : Phase
  released : Bool := false
deriving DecidableEq

/-- The scheduler with its clock, its callers, and the grants made so far. -/
structure World where
  sched : Scheduler
  clock : Time
  callers : Nat → Option Caller
  grants : List Grant

/-- What can happen next. Contexts end and timers fire at any moment, so a caller that
waits may give up or time out whenever it likes. -/
inductive Op where
  | advance (d : Nat)
  | acquire (c : Call)
  /-- The caller finds its channel ready. -/
  | wake (id : Nat)
  | giveUp (id : Nat)
  | timeOut (id : Nat)
  | refuse (id : Nat)
  | release (id : Nat) (actual : Int)
  | trip (lane : Lane) (retryAfter : Duration) (remaining : Option Int)
  | tick (lane : Lane)
  | snapshot
  | close

namespace World

def init (cfg : Config) (now : Time) : World :=
  { sched := newScheduler cfg now, clock := now, callers := fun _ => none, grants := [] }

def setCaller (w : World) (id : Nat) (c : Caller) : World :=
  { w with callers := fun i => if i = id then some c else w.callers i }

/-- Takes over what a critical section leaves and the grants it made. -/
def commit (w : World) (r : Scheduler × List Grant) : World :=
  { w with sched := r.1, grants := w.grants ++ r.2 }

/-- What `Acquire` returns once its waiter was signalled. -/
def outcome (s : Scheduler) (id : Nat) : Phase :=
  if (s.waiters id).cancelled then .refused ⟨(s.waiters id).req.lane, s.cfg.defaultCooldown⟩
  else .granted

/-- The caller leaves while it waits, for `left` unless it was dispatched. -/
def leave (w : World) (id : Nat) (left : Phase) : World :=
  let (gaveUp, r) := w.sched.abandon w.clock id
  (w.commit r).setCaller id { phase := if gaveUp then left else outcome r.1 id }

/-- The caller of `id` is in the phase. -/
def At (w : World) (id : Nat) (phase : Phase) : Prop :=
  (w.callers id).map Caller.phase = some phase

instance (w : World) (id : Nat) (phase : Phase) : Decidable (w.At id phase) :=
  inferInstanceAs (Decidable (_ = _))

/-- One event, when it can happen. -/
def exec (w : World) : Op → Option World
  | .advance d => some { w with clock := w.clock + d }
  | .acquire c =>
    match w.sched.acquire w.clock c with
    | (.error _, r) => some (w.commit r)
    | (.ok id, r) => some ((w.commit r).setCaller id { phase := .waiting })
  | .wake id =>
    let waiter := w.sched.waiters id
    if w.At id .waiting ∧ waiter.ready ≠ .empty then
      -- a signal is received once; a closed channel stays ready
      let ready := if waiter.ready = .sent then .empty else waiter.ready
      let sched := w.sched.setWaiter id { waiter with ready }
      some ({ w with sched }.setCaller id { phase := outcome sched id })
    else none
  | .giveUp id => if w.At id .waiting then some (w.leave id .ctxDone) else none
  | .timeOut id => if w.At id .waiting then some (w.leave id .refusing) else none
  | .refuse id =>
    if w.At id .refusing then
      let (err, sched) := w.sched.refuse w.clock id
      some ({ w with sched }.setCaller id { phase := .refused err })
    else none
  | .release id actual =>
    match w.callers id with
    | some ⟨.granted, false⟩ =>
      some ((w.commit (w.sched.release w.clock id actual)).setCaller id
        { phase := .granted, released := true })
    | some ⟨.granted, true⟩ => some w
    | _ => none
  | .trip lane retryAfter remaining =>
    some (w.commit (w.sched.trip w.clock lane retryAfter remaining))
  | .tick lane => some (w.commit (w.sched.tick w.clock lane))
  | .snapshot => some { w with sched := w.sched.snapshot w.clock }
  | .close => some { w with sched := w.sched.close }

end World

/-- One event of a run. -/
def Step (w : World) (op : Op) (w' : World) : Prop := w.exec op = some w'

end ApsBudget
