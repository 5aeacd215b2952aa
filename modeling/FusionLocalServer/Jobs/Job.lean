import FusionLocalServer.Lib.Run

/-!
# Upload and archive jobs

A job runs on the server after the request that asked for it has been answered, and anyone who
sees it may cancel it meanwhile. The two kinds of job have the same status machine, and differ in
what comes of them (`Kind`).

The run and the cancel calls are taken apart into the steps between which others may come: each
takes the job's lock once, and calls the context's cancel function after letting go of it.
-/

namespace Jobs

inductive Status where
  | queued
  /-- "uploading", or "preparing". -/
  | active
  /-- "done", or "ready". -/
  | succeeded
  | error
  | canceled
deriving DecidableEq

def Status.terminal : Status → Bool
  | succeeded | error | canceled => true
  | queued | active => false

/-- The error of a run's body. -/
structure RunError where
  /-- What `jobErrorMessage` makes of it. -/
  msg : String
  /-- It is `errNoArchiveFormat`. -/
  noFormat : Bool

/-- A kind of job, whose body returns a `β` and whose outcome is an `α`. -/
structure Kind (β α : Type) where
  concurrency : Nat
  blank : α
  succeeded : β → α
  failed : RunError → α
  /-- Whether the end of a job is announced in the requester's inbox. -/
  announces : Bool

structure UploadOutcome where
  errMsg : String := ""
  itemID : String := ""
  versionID : String := ""
deriving DecidableEq

def uploads : Kind (String × String) UploadOutcome where
  concurrency := 3
  blank := {}
  succeeded created := { itemID := created.1, versionID := created.2 }
  failed err := { errMsg := err.msg }
  announces := false

structure ArchiveOutcome where
  errMsg : String := ""
  errCode : String := ""
  downloadURL : String := ""
deriving DecidableEq

def archives : Kind String ArchiveOutcome where
  concurrency := 2
  blank := {}
  succeeded downloadURL := { downloadURL }
  failed err :=
    { errMsg := err.msg
      errCode := if err.noFormat then "archive_format_unavailable" else "upstream_failed" }
  announces := true

/-! ## One job -/

/-- Where a job's run is. -/
inductive Phase (β α : Type) where
  /-- The goroutine has yet to install its cancel function. -/
  | scheduled
  /-- In `setCancel`, after the lock. -/
  | installed (canceled : Bool)
  /-- Waiting for a slot. -/
  | waiting
  | slotted
  | working
  | worked (result : Except RunError β)
  /-- About to call `finish`. -/
  | finishing (st : Status) (outcome : α)
  /-- `finish` has returned whether it was the one to settle the job. -/
  | finished (st : Status) (first : Bool)
  | leaving
  | left

/-- A call of `cancel`, after the lock. -/
structure CancelCall where
  /-- The cancel function it found. -/
  fn : Bool
  /-- It found the job unfinished. -/
  effective : Bool
  returned : Bool := false

structure Job (β α : Type) where
  status : Status := .queued
  outcome : α
  finishedAt : Option Int := none
  /-- The cancel function of the run's context is installed. -/
  cancelFn : Bool := false
  /-- The run's context is done. -/
  ctxDone : Bool := false
  run : Phase β α := .scheduled
  /-- It holds a slot. -/
  slot : Bool := false
  cancels : List CancelCall := []
  /-- The requester has an inbox. -/
  inbox : Bool
  /-- The announcements sent: whether it went well. -/
  announced : List Bool := []

/-- The steps of a job's run, and of the calls that cancel it. -/
inductive Act (β : Type) where
  | install
  | installed
  | slot
  /-- The context is done before there is a slot. -/
  | abort
  | activate
  | work (result : Except RunError β)
  | judge
  | finish
  | announce
  | leave
  /-- The context runs into its deadline. -/
  | timeout
  | cancel
  /-- A cancel call calls the function it found. -/
  | canceled (call : Nat)

namespace Job

variable {β α : Type} (k : Kind β α) (j : Job β α) (now : Int)

def setStatus (st : Status) : Job β α :=
  if j.status.terminal then j else { j with status := st }

def finish (st : Status) (outcome : α) : Job β α × Bool :=
  if j.status.terminal then (j, false)
  else ({ j with status := st, outcome, finishedAt := some now }, true)

/-- `cancel` under the lock. -/
def cancel : Job β α :=
  let j := { j with
    cancels := j.cancels ++ [{ fn := j.cancelFn, effective := !j.status.terminal }] }
  if j.status.terminal then j
  else { j with status := .canceled, finishedAt := some now }

/-- What the run is to finish with. -/
def judged : Except RunError β → Status × α
  | .ok b => (.succeeded, k.succeeded b)
  | .error err => if j.ctxDone then (.canceled, k.blank) else (.error, k.failed err)

/-- `emitArchiveResult`, for the job's first end. -/
def announce (st : Status) (first : Bool) : Job β α :=
  if first && k.announces && st != .canceled && j.inbox then
    { j with announced := j.announced ++ [st == .succeeded] }
  else j

/-- A step, where it is that step's turn. -/
def step (free : Bool) : Act β → Option (Job β α)
  | .install =>
    match j.run with
    | .scheduled =>
      some { j with run := .installed (j.status == .canceled), cancelFn := true }
    | _ => none
  | .installed =>
    match j.run with
    | .installed canceled => some { j with run := .waiting, ctxDone := j.ctxDone || canceled }
    | _ => none
  | .slot =>
    match j.run with
    | .waiting => if free then some { j with run := .slotted, slot := true } else none
    | _ => none
  | .abort =>
    match j.run with
    | .waiting => if j.ctxDone then some { j with run := .finishing .canceled k.blank } else none
    | _ => none
  | .activate =>
    match j.run with
    | .slotted => some { j.setStatus .active with run := .working }
    | _ => none
  | .work result =>
    match j.run with
    | .working => some { j with run := .worked result }
    | _ => none
  | .judge =>
    match j.run with
    | .worked result =>
      some { j with run := .finishing (j.judged k result).1 (j.judged k result).2 }
    | _ => none
  | .finish =>
    match j.run with
    | .finishing st outcome =>
      some { (j.finish now st outcome).1 with run := .finished st (j.finish now st outcome).2 }
    | _ => none
  | .announce =>
    match j.run with
    | .finished st first => some { j.announce k st first with run := .leaving }
    | _ => none
  | .leave =>
    match j.run with
    | .leaving => some { j with run := .left, ctxDone := true, slot := false }
    | _ => none
  | .timeout => if j.run matches .scheduled then none else some { j with ctxDone := true }
  | .cancel => some (j.cancel now)
  | .canceled n =>
    match j.cancels[n]? with
    | some c =>
      if c.returned then none
      else some { j with
        cancels := j.cancels.set n { c with returned := true }
        ctxDone := j.ctxDone || c.fn }
    | none => none

end Job

/-! ## The jobs of a server -/

inductive Event (β : Type) where
  | tick (d : Nat)
  /-- A job is added, and its run scheduled. -/
  | add (inbox : Bool)
  | act (job : Nat) (a : Act β)

structure World (β α : Type) where
  clock : Int
  jobs : List (Job β α) := []

namespace World

variable {β α : Type} (k : Kind β α)

/-- There is a slot to be had. -/
def free (w : World β α) : Bool := decide (w.jobs.countP (·.slot) < k.concurrency)

def step (w : World β α) : Event β → Option (World β α)
  | .tick d => some { w with clock := w.clock + d }
  | .add inbox => some { w with jobs := w.jobs ++ [{ outcome := k.blank, inbox }] }
  | .act n a =>
    match w.jobs[n]? with
    | some j => (j.step k w.clock (w.free k) a).map fun j => { w with jobs := w.jobs.set n j }
    | none => none

def start (clock : Int) : World β α := { clock }

/-- The events lead from one world to another. -/
abbrev Runs (w : World β α) (es : List (Event β)) (w' : World β α) : Prop :=
  Lib.Run (fun w e w' => w.step k e = some w') Lib.always w es w'

end World

end Jobs
