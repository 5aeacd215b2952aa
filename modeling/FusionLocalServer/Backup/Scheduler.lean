import Mathlib.Data.List.AList
import Mathlib.Data.List.Sort
import FusionLocalServer.Backup.Schedule
import FusionLocalServer.Lib.Run

/-!
# The backup scheduler (`server/handlers_backup.go`)

One goroutine backs up every hub at the hub's own time of day. It reads the clock, computes
the earliest time at which some hub is next due, and sleeps until then or until a poke, which
follows a change of settings. A timer that expires leads to a pass over the hubs: each whose
time has come since the clock was read is backed up, one after the other.

Settings may be saved at any moment, a backup may take any time, and when the timer has
expired and a poke is there, either is taken. Instants are nanoseconds; the zone is `zone`
ahead of UTC.
-/

namespace FusionLocalServer.Backup.Scheduler

open Lib

/-- `hubBackupConfig`, and since when the hub has had its schedule. -/
structure HubConfig where
  backupDir : String
  backupTime : String
  backupEnabled : Bool
  since : Int
  deriving DecidableEq, Repr

/-- Whether the hub is backed up at all. -/
def HubConfig.active (cfg : HubConfig) : Bool := cfg.backupEnabled && cfg.backupDir ≠ ""

/-- The settings of the hubs that have a directory. -/
abbrev Configs := AList fun _ : String => HubConfig

/-- `diskHubSlugs` -/
def diskHubSlugs (configs : Configs) : List String := configs.keys.insertionSort (· ≤ ·)

/-- `nextScheduledBackup` -/
def nextScheduledBackup (zone now : Int) (configs : Configs) : Option Int :=
  ((diskHubSlugs configs).filterMap fun slug =>
    ((configs.lookup slug).filter HubConfig.active).map fun cfg =>
      nextRun zone now cfg.backupTime).min?

/-- Where the goroutine is. -/
inductive Phase where
  /-- The clock was read; the settings are about to be. -/
  | evaluating (now : Int)
  /-- No hub is backed up; only a poke is waited for. -/
  | idle (now : Int)
  | waiting (now next : Int)
  /-- In `runDueHubBackups`, with the hubs that are still to come. -/
  | passing (computedAt now : Int) (slugs : List String)
  /-- In the backup of a hub, with those behind it. -/
  | running (computedAt now : Int) (slugs : List String)
  deriving DecidableEq, Repr

/-- When the clock was read with which the timer was, or is to be, computed. -/
def Phase.computedAt : Phase → Int
  | evaluating now => now
  | idle now => now
  | waiting now _ => now
  | passing computedAt _ _ => computedAt
  | running computedAt _ _ => computedAt

/-- From when on the goroutine can go on by itself, where it is waiting to. -/
def Phase.readyAt : Phase → Option Int
  | evaluating now => some now
  | waiting _ next => some next
  | _ => none

/-- Whether the goroutine takes a poke. -/
def Phase.takesPoke : Phase → Bool
  | idle _ => true
  | waiting _ _ => true
  | _ => false

/-- When the pass began that is under way. -/
def Phase.passNow : Phase → Option Int
  | passing _ now _ => some now
  | running _ now _ => some now
  | _ => none

/-- The goroutine and what it shares. `poke` is the one pending poke, with the time it was
sent; `starts` are the backups begun. -/
structure State where
  clock : Int
  configs : Configs
  poke : Option Int
  phase : Phase
  starts : List (String × Int)

/-- What happens. -/
inductive Move where
  /-- `handleAdminBackupConfigSet`: settings are saved, and the scheduler is poked. -/
  | save (slug backupDir backupTime : String) (backupEnabled : Bool)
  | takePoke
  | evaluate
  | fire
  /-- The next hub of a pass is not due, or there is none. -/
  | pass
  /-- The next hub is due, but its stores or its engine cannot be had. -/
  | unavailable
  | start
  | finish
  deriving DecidableEq, Repr

structure Event where
  time : Int
  move : Move
  deriving DecidableEq, Repr

/-- The settings after saving. A hub keeps its `since` when its schedule stays as it is. -/
def newConfig (old : Option HubConfig) (time : Int) (backupDir backupTime : String)
    (backupEnabled : Bool) : HubConfig :=
  let cfg : HubConfig := { backupDir, backupTime, backupEnabled, since := time }
  match old with
  | none => cfg
  | some old =>
    if old.active = cfg.active ∧ old.backupTime = backupTime then { cfg with since := old.since }
    else cfg

/-- Whether a hub's time has come by `now`, of a pass whose timer was computed at `computedAt`. -/
def due (zone computedAt now : Int) (configs : Configs) (slug : String) : Bool :=
  match configs.lookup slug with
  | some cfg => cfg.active && !decide (now < nextRun zone computedAt cfg.backupTime)
  | none => false

/-- One step of the goroutine, or of whoever saves settings. -/
def step (zone : Int) (s : State) (e : Event) : Option State :=
  if e.time < s.clock then none
  else
    match e.move, s.phase with
    | .save slug dir time enabled, _ =>
      some { s with
        clock := e.time
        configs := s.configs.insert slug
          (newConfig (s.configs.lookup slug) e.time dir time enabled)
        poke := s.poke.or (some e.time) }
    | .takePoke, .idle _ | .takePoke, .waiting _ _ =>
      if s.poke.isSome then
        some { s with clock := e.time, poke := none, phase := .evaluating e.time }
      else none
    | .evaluate, .evaluating now =>
      match nextScheduledBackup zone now s.configs with
      | none => some { s with clock := e.time, phase := .idle now }
      | some next => some { s with clock := e.time, phase := .waiting now next }
    | .fire, .waiting now next =>
      if next ≤ e.time then
        some { s with clock := e.time, phase := .passing now e.time (diskHubSlugs s.configs) }
      else none
    | .pass, .passing _ _ [] => some { s with clock := e.time, phase := .evaluating e.time }
    | .pass, .passing computedAt now (slug :: slugs) =>
      if due zone computedAt now s.configs slug then none
      else some { s with clock := e.time, phase := .passing computedAt now slugs }
    | .unavailable, .passing computedAt now (slug :: slugs) =>
      if due zone computedAt now s.configs slug then
        some { s with clock := e.time, phase := .passing computedAt now slugs }
      else none
    | .start, .passing computedAt now (slug :: slugs) =>
      if due zone computedAt now s.configs slug then
        some { s with
          clock := e.time
          phase := .running computedAt now slugs
          starts := (slug, e.time) :: s.starts }
      else none
    | .finish, .running computedAt now slugs =>
      some { s with clock := e.time, phase := .passing computedAt now slugs }
    | _, _ => none

/-- The steps of the goroutine in a zone. -/
def Steps (zone : Int) (s : State) (e : Event) (s' : State) : Prop := step zone s e = some s'

/-- The state in which the goroutine begins: hubs that have had their schedules for some
time, and no poke. -/
structure Begins (s : State) : Prop where
  phase : s.phase = .evaluating s.clock
  poke : s.poke = none
  since : ∀ slug cfg, s.configs.lookup slug = some cfg → cfg.since ≤ s.clock

/-! ## What a hub is promised -/

/-- An instant at which the time of day of an active hub comes round, under the schedule it
has. -/
def Slot (zone : Int) (configs : Configs) (slug : String) (o : Int) : Prop :=
  ∃ cfg, configs.lookup slug = some cfg ∧ cfg.active = true ∧ cfg.since < o ∧
    Occurs zone cfg.backupTime o

/-- A backup of the hub has begun at or after `o` and before the time comes round again. -/
def Started (starts : List (String × Int)) (slug : String) (o : Int) : Prop :=
  ∃ t, (slug, t) ∈ starts ∧ o ≤ t ∧ t < o + nanosPerDay

/-- **No backup is skipped**: each time of a hub since the goroutine began has led to a backup
before it comes round again. -/
def NeverSkipped (zone begun : Int) (s : State) : Prop :=
  ∀ slug o, Slot zone s.configs slug o → begun < o → o + nanosPerDay ≤ s.clock →
    Started s.starts slug o

/-- The time of some hub comes round behind `a`, and not behind `b`. -/
def SlotIn (zone : Int) (configs : Configs) (a b : Int) : Prop :=
  ∃ slug o, Slot zone configs slug o ∧ a < o ∧ o ≤ b

/-- The goroutine goes on within a day when it can: when it has read the clock, when its
timer has expired, when a poke is there to take. -/
def Prompt (s : State) (t : Int) : Prop :=
  (∀ since ∈ s.phase.readyAt, t < since + nanosPerDay) ∧
    (s.phase.takesPoke = true → ∀ sent ∈ s.poke, t < sent + nanosPerDay)

instance (s : State) (t : Int) : Decidable (Prompt s t) := inferInstanceAs (Decidable (_ ∧ _))

/-- A step that passes over no slot: none has come since the clock was read when a poke is
taken, none comes during a pass, and no hub that is due is unavailable. -/
structure Smooth (zone : Int) (s : State) (e : Event) : Prop where
  prompt : Prompt s e.time
  poke : e.move = .takePoke → ¬ SlotIn zone s.configs s.phase.computedAt e.time
  pass : ∀ now ∈ s.phase.passNow, ¬ SlotIn zone s.configs now e.time
  available : e.move ≠ .unavailable

end FusionLocalServer.Backup.Scheduler
