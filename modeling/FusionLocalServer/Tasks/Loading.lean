import FusionLocalServer.Storage.Migrate
import FusionLocalServer.Tasks.Project

/-!
# Tasks from a document

A document's list of tasks is decoded into pointers, and a `null` in it into a nil. Loading
leaves them as they are. The operations go through the list: to look up a task, to look for
cycles, and to copy all of it ahead of a mutation. `Mine` and `ListForProjects` pass over what
is nil, and are left out.

How a document decodes into a file is a parameter.
-/

namespace Tasks

open Lib Lib.Json Lib.Nilable
open FusionLocalServer.Storage

namespace Loading

abbrev NilFile := ProjectFile List (Option TaskVal)

/-- A file without a nil. -/
def whole (pf : FileVal) : NilFile :=
  { toFileHeader := pf.toFileHeader, tasks := pf.tasks.map some }

/-- `newRegistry` -/
def registry : Registry where
  target := fileVersion
  steps v := if v = 1 then some fun raw => .ok raw else none

/-! ## Looking through the tasks -/

/-- What looks through a list of pointers ends in a result, in an error, or in a panic. -/
abbrev Look := ExceptT Err (Except Panic)

/-- Fails if the condition holds. -/
def Look.refuse (p : Prop) [Decidable p] (e : Err) : Look Unit := if p then throw e else pure ()

/-- No panic. -/
def Look.Calm {α : Type} (x : Look α) : Prop := ∃ r, x.run = .ok r

section

variable (tasks : List (Option TaskVal))

def find (taskID : String) : Look (Option (Nat × TaskVal)) :=
  ExceptT.lift (search (fun t => t.id = taskID) tasks)

/-- The loop over the dependencies in `validateDependsOn`. -/
def lookEach (selfID : String) : List String → Look Unit
  | [] => pure ()
  | dep :: deps => do
    Look.refuse (dep = selfID) (.invalid "a task cannot depend on itself")
    let found ← find tasks dep
    Look.refuse (found.isNone = true) (.invalid "dependency %q not found" [dep])
    lookEach selfID deps

/-- The loop of `dependsOnCycle`. -/
def lookAround (selfID : String) : Nat → List String → List String → Look Bool
  | 0, _, _ => pure false
  | _ + 1, _, [] => pure false
  | turns + 1, seen, id :: stack =>
    if id = selfID then pure true
    else if id ∈ seen then lookAround selfID turns seen stack
    else do
      let found ← find tasks id
      lookAround selfID turns (id :: seen)
        ((found.elim [] fun found => found.2.dependsOn).reverse ++ stack)

/-- `validateDependsOn` -/
def lookDependsOn (selfID : String) (deps : List String) : Look Unit := do
  Look.refuse (MaxDependsOn < deps.length) (.invalid s!"at most {MaxDependsOn} dependencies")
  lookEach tasks selfID deps
  let turns := deps.length + (tasks.map fun t => t.elim 0 fun t => t.dependsOn.length).sum + 1
  let cycle ← lookAround tasks selfID turns [selfID] deps.reverse
  Look.refuse (cycle = true) (.invalid "dependencies would form a cycle")

/-- The loop of `ShiftTasks` that looks up the tasks. -/
def lookScheduled : List String → Look Unit
  | [] => pure ()
  | id :: ids => do
    match ← find tasks id with
    | none => throw (.notFound "task %q" [id])
    | some (_, t) =>
      Look.refuse (t.startDate = "") (.invalid "task %q is not scheduled" [id])
      lookScheduled ids

/-- What a mutation does with the list ahead of the copy it makes. -/
def look : Op → Look Unit
  | .create _ _ d _ => do
    Look.refuse (MaxTasksPerProject ≤ tasks.length)
      (.invalid s!"project already has {MaxTasksPerProject} tasks")
    lookDependsOn tasks "" (normalizeDependsOn d.dependsOn)
  | .update taskID p => do
    match ← find tasks taskID with
    | none => throw (.notFound "task %q" [taskID])
    | some (_, t) =>
      let new := p.fields t.toTaskHeader
      liftExcept (validateFields new.title new.description (p.status.getD t.status) new.priority
        new.dueDate (p.docRefs.getD t.docRefs) new.schedule)
      p.dependsOn.elim (pure ()) fun deps =>
        lookDependsOn tasks t.id (normalizeDependsOn deps)
  | .delete taskID => do
    let found ← find tasks taskID
    Look.refuse (found.isNone = true) (.notFound "task %q" [taskID])
  | .shiftTasks taskIDs _ => lookScheduled tasks (normalizeDependsOn taskIDs)
  | .read | .reset | .deleteProject _ => pure ()
where
  liftExcept (x : Except Err Unit) : Look Unit := ExceptT.mk (.ok x)

end

/-! ## The store -/

/-- A file as it was found, or as it was saved. -/
inductive Content where
  | found (data : List UInt8)
  | saved (pf : NilFile)

structure State where
  file : Option NilFile := none
  disk : Option Content

/-- What a call meets with. -/
structure LoadEnv extends Env where
  copyFails : Bool := false
  renameFails : Bool := false

inductive Request where
  | op (o : Op)
  | list
  | get (taskID : String)

section

variable (number : List Char → Option (List Char)) (decode : Json → Option NilFile)
  (projectID : String)

def Content.read (copyFails : Bool) : Content → Except Fault NilFile
  | .found data => registry.decodeFile number decode copyFails data
  | .saved pf => .ok pf

namespace State

variable (s : State) (env : LoadEnv)

/-- `project` with `loadFile` -/
def project : Except Panic (State × Except Err NilFile) :=
  match s.file with
  | some pf => .ok (s, .ok pf)
  | none =>
    let fresh := whole (freshFile env.toEnv projectID)
    match s.disk with
    | none => .ok ({ s with file := some fresh }, .ok fresh)
    | some content =>
      if env.readFails then .ok (s, .error ⟨.io, "tasks: reading %s", []⟩)
      else
        match content.read number decode env.copyFails with
        | .error (.panic p) => .error p
        | .error .futureVersion =>
          .ok (s, .error ⟨.futureVersion, "tasks: data written by a newer version", []⟩)
        | .error .failed =>
          .ok ({ file := some fresh, disk := if env.renameFails then s.disk else none }, .ok fresh)
        | .ok pf =>
          let pf : NilFile :=
            { toFileHeader := repairFile env.toEnv pf.toFileHeader, tasks := pf.tasks }
          .ok ({ s with file := some pf }, .ok pf)

/-- A mutation of the loaded file: what it looks up, the copy, and the writes. -/
def mutate (pf : NilFile) (o : Op) (op : FileOp) : Except Panic (State × Result) :=
  match (look pf.tasks o).run with
  | .error p => .error p
  | .ok (.error e) => .ok (s, .error e)
  | .ok (.ok ()) =>
    match each .ok pf.tasks with
    | .error p => .error p
    | .ok prev =>
      let old : FileVal := { toFileHeader := pf.toFileHeader, tasks := prev }
      match op old with
      | .error e => .ok (s, .error e)
      | .ok c =>
        let new := Project.stamped env.toEnv (applyFile c.edits old)
        if env.dirFails || env.saveFails then
          .ok ({ s with file := some (whole old) }, .error saveErr)
        else
          .ok ({ file := some (whole new), disk := some (.saved (whole new)) },
            .ok (tasksAt c.returned new))

/-- A call on a file that is loaded. -/
def onFile (pf : NilFile) : Request → Except Panic (State × Result)
  | .list => (each .ok pf.tasks).map fun tasks => (s, .ok tasks)
  | .get taskID =>
    match (find pf.tasks taskID).run with
    | .error p => .error p
    | .ok (.error e) => .ok (s, .error e)
    | .ok (.ok none) => .ok (s, .error (.notFound "task %q" [taskID]))
    | .ok (.ok (some (_, t))) => .ok (s, .ok [t])
  | .op o =>
    match o.mutation env.now with
    | some (.ok op) => s.mutate env pf o op
    | _ => .ok (s, .ok [])

def call (request : Request) : Except Panic (State × Result) :=
  match request with
  | .op .reset => .ok ({ s with file := none }, .ok [])
  | .op (.deleteProject r) =>
    .ok ({ file := none, disk := if r.gone then none else s.disk }, removed r)
  | .op (.create hubID projectName d createdBy) =>
    match Tasks.create env.now hubID projectName d createdBy with
    | .error e => .ok (s, .error e)
    | .ok _ => loaded
  | .op (.shiftTasks taskIDs days) =>
    match Tasks.shiftTasks env.now taskIDs days with
    | .error e => .ok (s, .error e)
    | .ok _ => loaded
  | _ => loaded
where
  loaded : Except Panic (State × Result) :=
    match s.project number decode projectID env with
    | .error p => .error p
    | .ok (s, .error e) => .ok (s, .error e)
    | .ok (s, .ok pf) => s.onFile env pf request

end State

/-- One call on a project of the store. -/
def handle (s : State) (event : LoadEnv × Request) : Except Panic State :=
  (s.call number decode projectID event.1 event.2).map (·.1)

end

/-! ## No panic in a whole list -/

section

variable {α β : Type} {tasks : List (Option TaskVal)}

theorem Look.Calm.bind {x : Look α} {f : α → Look β} (hx : x.Calm) (hf : ∀ a, (f a).Calm) :
    (x >>= f).Calm := by
  obtain ⟨r, hr⟩ := hx
  unfold Look.Calm
  rw [ExceptT.run_bind, hr]
  cases r with
  | error e => exact ⟨.error e, rfl⟩
  | ok a => exact hf a

theorem calm_pure (a : α) : (pure a : Look α).Calm := ⟨.ok a, rfl⟩

theorem calm_throw (e : Err) : (throw e : Look α).Calm := ⟨.error e, rfl⟩

theorem calm_refuse (p : Prop) [Decidable p] (e : Err) : (Look.refuse p e).Calm := by
  unfold Look.refuse
  split
  · exact calm_throw e
  · exact calm_pure _

theorem calm_find (h : Whole tasks) (taskID : String) : (find tasks taskID).Calm := by
  obtain ⟨found, hfound, -⟩ := search_ends (fun t : TaskVal => t.id = taskID) h
  exact ⟨.ok found, by simp [find, hfound]⟩

theorem calm_lookEach (h : Whole tasks) (selfID : String) (deps : List String) :
    (lookEach tasks selfID deps).Calm := by
  induction deps with
  | nil => exact calm_pure _
  | cons dep deps ih =>
    exact (calm_refuse _ _).bind fun _ => (calm_find h dep).bind fun _ =>
      (calm_refuse _ _).bind fun _ => ih

theorem calm_lookAround (h : Whole tasks) (selfID : String) (turns : Nat) :
    ∀ seen stack, (lookAround tasks selfID turns seen stack).Calm := by
  induction turns with
  | zero => exact fun _ _ => calm_pure _
  | succ turns ih =>
    intro seen stack
    cases stack with
    | nil => exact calm_pure _
    | cons id stack =>
      unfold lookAround
      split
      · exact calm_pure _
      split
      · exact ih _ _
      · exact (calm_find h id).bind fun _ => ih _ _

theorem calm_lookDependsOn (h : Whole tasks) (selfID : String) (deps : List String) :
    (lookDependsOn tasks selfID deps).Calm :=
  (calm_refuse _ _).bind fun _ => (calm_lookEach h selfID deps).bind fun _ =>
    (calm_lookAround h selfID _ _ _).bind fun _ => calm_refuse _ _

theorem calm_lookScheduled (h : Whole tasks) (ids : List String) :
    (lookScheduled tasks ids).Calm := by
  induction ids with
  | nil => exact calm_pure _
  | cons id ids ih =>
    refine (calm_find h id).bind fun found => ?_
    cases found with
    | none => exact calm_throw _
    | some t => exact (calm_refuse _ _).bind fun _ => ih

theorem calm_look (h : Whole tasks) (o : Op) : (look tasks o).Calm := by
  cases o with
  | create hubID projectName d createdBy =>
    exact (calm_refuse _ _).bind fun _ => calm_lookDependsOn h _ _
  | update taskID p =>
    refine (calm_find h taskID).bind fun found => ?_
    cases found with
    | none => exact calm_throw _
    | some t =>
      refine Look.Calm.bind ⟨_, rfl⟩ fun _ => ?_
      cases p.dependsOn with
      | none => exact calm_pure _
      | some deps => exact calm_lookDependsOn h _ _
  | delete taskID => exact (calm_find h taskID).bind fun _ => calm_refuse _ _
  | shiftTasks taskIDs days => exact calm_lookScheduled h _
  | read => exact calm_pure _
  | reset => exact calm_pure _
  | deleteProject r => exact calm_pure _

end

/-! ## Which documents are loaded -/

section

variable {number : List Char → Option (List Char)} {decode : Json → Option NilFile}
  {projectID : String} {data : List UInt8}

/-- What the document decodes into, if it does, has no nil. -/
def Loadable (number : List Char → Option (List Char)) (decode : Json → Option NilFile)
    (data : List UInt8) : Prop :=
  ∀ pf, registry.decodeFile number decode false data = .ok pf → Whole pf.tasks

/-- The file in memory, and what was saved, has no nil; else the disk is as it was found. -/
structure Sound (data : List UInt8) (s : State) : Prop where
  file : ∀ pf, s.file = some pf → Whole pf.tasks
  disk : ∀ content, s.disk = some content →
    content = .found data ∨ ∃ pf, content = .saved pf ∧ Whole pf.tasks

theorem registry_keeps : ∀ v step, registry.steps v = some step → step.Keeps := by
  intro v step hstep
  simp only [registry] at hstep
  split at hstep
  · cases hstep
    exact keeps_id
  · cases hstep

theorem whole_tasks (pf : FileVal) : Whole (whole pf).tasks := whole_map id pf.tasks

theorem Sound.project (hdata : Loadable number decode data) {s : State} (hs : Sound data s)
    (env : LoadEnv) : ∃ s' result, s.project number decode projectID env = .ok (s', result) ∧
      Sound data s' ∧ ∀ pf, result = .ok pf → Whole pf.tasks := by
  have hfresh := whole_tasks (freshFile env.toEnv projectID)
  unfold State.project
  cases hfile : s.file with
  | some pf => exact ⟨_, _, rfl, hs, fun pf' hpf => by cases hpf; exact hs.file pf hfile⟩
  | none =>
    cases hdisk : s.disk with
    | none =>
      refine ⟨_, _, rfl, ⟨fun pf hpf => ?_, fun c hc => (nomatch hc)⟩, fun pf hpf => ?_⟩
      all_goals
        cases hpf
        exact hfresh
    | some content =>
      dsimp only
      split
      · exact ⟨_, _, rfl, hs, fun _ hpf => (nomatch hpf)⟩
      have hno : ∀ p, content.read number decode env.copyFails ≠ .error (.panic p) := by
        rcases hs.disk content hdisk with rfl | ⟨pf, rfl, -⟩
        · exact Registry.decodeFile_no_panic registry_keeps env.copyFails fun _ => rfl
        · exact fun _ h => (nomatch h)
      have hwhole : ∀ pf, content.read number decode env.copyFails = .ok pf → Whole pf.tasks := by
        intro pf hpf
        rcases hs.disk content hdisk with rfl | ⟨pf', rfl, hpf'⟩
        · exact hdata pf (Registry.decodeFile_copied hpf)
        · cases hpf
          exact hpf'
      split
      · next p hp => exact absurd hp (hno p)
      · exact ⟨_, _, rfl, hs, fun _ hpf => (nomatch hpf)⟩
      · refine ⟨_, _, rfl, ⟨fun pf hpf => ?_, fun c hc => ?_⟩, fun pf hpf => ?_⟩
        · cases hpf
          exact hfresh
        · dsimp only at hc
          split at hc
          · exact hs.disk c (hdisk.trans hc)
          · cases hc
        · cases hpf
          exact hfresh
      · next pf hpf =>
        refine ⟨_, _, rfl, ⟨fun pf' hpf' => ?_, fun c hc => hs.disk c (hdisk.trans hc)⟩,
          fun pf' hpf' => ?_⟩
        all_goals
          cases hpf'
          exact hwhole pf hpf

theorem Sound.mutate {s : State} (hs : Sound data s) (env : LoadEnv) {pf : NilFile}
    (hpf : Whole pf.tasks) (o : Op) (op : FileOp) :
    ∃ s' result, s.mutate env pf o op = .ok (s', result) ∧ Sound data s' := by
  obtain ⟨looked, hlook⟩ := calm_look hpf o
  obtain ⟨prev, hprev, -⟩ := each_ends (f := .ok) (P := fun _ => True) hpf fun t _ => ⟨t, rfl, trivial⟩
  unfold State.mutate
  rw [hlook]
  cases looked with
  | error e => exact ⟨_, _, rfl, hs⟩
  | ok _ =>
    simp only [hprev]
    split
    · exact ⟨_, _, rfl, hs⟩
    split
    · refine ⟨_, _, rfl, fun pf' hpf' => ?_, hs.disk⟩
      cases hpf'
      exact whole_tasks _
    · refine ⟨_, _, rfl, fun pf' hpf' => ?_, fun c hc => ?_⟩
      · cases hpf'
        exact whole_tasks _
      · cases hc
        exact .inr ⟨_, rfl, whole_tasks _⟩

theorem Sound.onFile {s : State} (hs : Sound data s) (env : LoadEnv) {pf : NilFile}
    (hpf : Whole pf.tasks) (request : Request) :
    ∃ s' result, s.onFile env pf request = .ok (s', result) ∧ Sound data s' := by
  unfold State.onFile
  cases request with
  | list =>
    obtain ⟨tasks, htasks, -⟩ := each_ends (f := .ok) (P := fun _ => True) hpf fun t _ =>
      ⟨t, rfl, trivial⟩
    exact ⟨s, .ok tasks, by simp [htasks, Except.map], hs⟩
  | get taskID =>
    obtain ⟨found, hfound⟩ := calm_find hpf taskID
    simp only [hfound]
    split
    · next h => cases h
    all_goals exact ⟨_, _, rfl, hs⟩
  | op o =>
    dsimp only
    split
    · exact hs.mutate env hpf o _
    · exact ⟨_, _, rfl, hs⟩

theorem Sound.loaded (hdata : Loadable number decode data) {s : State} (hs : Sound data s)
    (env : LoadEnv) (request : Request) :
    ∃ s' result, State.call.loaded number decode projectID s env request = .ok (s', result) ∧
      Sound data s' := by
  obtain ⟨s', result, hproject, hs', hpf⟩ :
      ∃ s' result, s.project number decode projectID env = .ok (s', result) ∧
        Sound data s' ∧ ∀ pf, result = .ok pf → Whole pf.tasks := hs.project hdata env
  unfold State.call.loaded
  rw [hproject]
  cases result with
  | error e => exact ⟨_, _, rfl, hs'⟩
  | ok pf => exact hs'.onFile env (hpf pf rfl) request

theorem Sound.handle (hdata : Loadable number decode data) {s : State} (hs : Sound data s)
    (event : LoadEnv × Request) :
    ∃ s', handle number decode projectID s event = .ok s' ∧ Sound data s' := by
  obtain ⟨env, request⟩ := event
  have hcall : ∃ s' result, s.call number decode projectID env request = .ok (s', result) ∧
      Sound data s' := by
    have hloaded : ∃ s' result,
        State.call.loaded number decode projectID s env request = .ok (s', result) ∧ Sound data s' :=
      hs.loaded hdata env request
    unfold State.call
    split
    · exact ⟨_, _, rfl, fun _ hpf => (nomatch hpf), hs.disk⟩
    · refine ⟨_, _, rfl, fun _ hpf => (nomatch hpf), fun c hc => ?_⟩
      dsimp only at hc
      split at hc
      · cases hc
      · exact hs.disk c hc
    · split
      · exact ⟨_, _, rfl, hs⟩
      · exact hloaded
    · split
      · exact ⟨_, _, rfl, hs⟩
      · exact hloaded
    · exact hloaded
  obtain ⟨s', result, h, hs'⟩ := hcall
  exact ⟨s', by simp [Loading.handle, h, Except.map], hs'⟩

/-- The calls on a project have no panic, in any order, if and only if its document is loadable. -/
theorem handles_iff (data : List UInt8) :
    (∀ events, ∃ s, Panic.run (handle number decode projectID) { disk := some (.found data) }
      events = .ok s) ↔ Loadable number decode data := by
  constructor
  · intro h pf hpf
    by_contra hnil
    -- the list is copied with all there is in it
    have hlist : ∃ p, each Except.ok pf.tasks = .error p := by
      cases heach : each Except.ok pf.tasks with
      | error p => exact ⟨p, rfl⟩
      | ok tasks => exact absurd (of_each heach).1 hnil
    obtain ⟨p, hp⟩ := hlist
    have hread : handle number decode projectID { disk := some (.found data) }
        ({ now := 0 }, .list) = .error p := by
      simp [handle, State.call, State.call.loaded, State.project, Content.read, hpf, State.onFile,
        hp, Except.map]
    exact Panic.run_panics hread (h _)
  · intro hdata events
    refine Panic.run_ok (I := Sound data) (fun s event hs => hs.handle hdata event) events
      ⟨fun _ hpf => (nomatch hpf), fun c hc => ?_⟩
    cases hc
    exact .inl rfl

end

end Loading

end Tasks
