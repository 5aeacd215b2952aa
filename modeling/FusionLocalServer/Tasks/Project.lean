import FusionLocalServer.Lib.Memory
import FusionLocalServer.Tasks.Types

/-!
# A project of the task store as a value

What the store means to be for one project: the project's tasks, when they are loaded, and
the file on disk. Each mutation is a function of the file that either is refused or comes to
a list of writes; the writes are applied to the value here, and to the objects in memory in
the store.
-/

namespace Tasks

open Lib (Time trimSpace refuse)
open FusionLocalServer.Storage

def fileVersion : Int := 2

/-! ## The file -/

/-- What a save does to the file's header in memory, whether it succeeds or not. -/
def touchFile (env : Env) (h : FileHeader) : FileHeader :=
  if env.dirFails then h else { h with schema := h.schema.touch env }

/-- The file of a project without one. -/
def freshFile (env : Env) (projectID : String) : FileVal :=
  { version := fileVersion, schema := newStamp env, projectId := projectID, hubId := ""
    projectName := "", nextTaskId := 1, tasks := [] }

def repairFile (env : Env) (h : FileHeader) : FileHeader :=
  { h with
    version := fileVersion
    nextTaskId := if h.nextTaskId < 1 then 1 else h.nextTaskId
    schema := if h.schema.createdAt = zeroTime then backfill env else h.schema }

/-- What `loadFile` makes of the file on disk. The migration of the older version leaves the
data as it is. -/
def loadFile (env : Env) (projectID : String) (disk : Option FileVal) : Except Err FileVal :=
  if env.readFails then .error ⟨.io, "tasks: reading %s", []⟩
  else
    match disk with
    | none => .ok (freshFile env projectID)
    | some pf =>
      if fileVersion < pf.version then
        .error ⟨.futureVersion, "tasks: data written by a newer version", []⟩
      else .ok { pf with toFileHeader := repairFile env pf.toFileHeader }

/-! ## Writes -/

/-- A write through the pointer to a task. -/
inductive TaskEdit where
  | fields (f : TaskHeader → TaskHeader)
  | setDocRefs (refs : List String)
  | setDependsOn (deps : List String)
  /-- Takes an id out of what the task depends on. -/
  | dropDependency (id : String)

def TaskEdit.apply (t : TaskVal) : TaskEdit → TaskVal
  | .fields f => { t with toTaskHeader := f t.toTaskHeader }
  | .setDocRefs refs => { t with docRefs := refs }
  | .setDependsOn deps => { t with dependsOn := deps }
  | .dropDependency id => { t with dependsOn := t.dependsOn.filter fun dep => dep ≠ id }

/-- A write through the pointer to the file. -/
inductive FileEdit where
  | fields (f : FileHeader → FileHeader)
  | addTask (h : TaskHeader) (docRefs dependsOn : List String)
  | removeTask (i : Nat)
  | onTask (i : Nat) (e : TaskEdit)

/-- A task as `Create` makes it. -/
def newTask (h : TaskHeader) (docRefs dependsOn : List String) : TaskVal :=
  { toTaskHeader := h, docRefs, dependsOn }

def FileEdit.apply (pf : FileVal) : FileEdit → FileVal
  | .fields f => { pf with toFileHeader := f pf.toFileHeader }
  | .addTask h docRefs dependsOn => { pf with tasks := pf.tasks ++ [newTask h docRefs dependsOn] }
  | .removeTask i => { pf with tasks := pf.tasks.eraseIdx i }
  | .onTask i e => { pf with tasks := pf.tasks.modify i fun t => e.apply t }

/-- The writes to one task, in order. -/
def applyTask (edits : List TaskEdit) (t : TaskVal) : TaskVal := edits.foldl TaskEdit.apply t

def applyFile (edits : List FileEdit) (pf : FileVal) : FileVal := edits.foldl FileEdit.apply pf

/-- What a mutation comes to: its writes, and the places of the tasks it returns. -/
structure Mutation where
  edits : List FileEdit
  returned : List Nat := []

/-- What a mutation does once the project is loaded. -/
abbrev FileOp := FileVal → Except Err Mutation

/-! ## The mutations -/

/-- Takes the next task number, and refreshes what the file says of its project. -/
def nextTask (hubID projectName : String) : FileEdit := .fields fun h =>
  { h with nextTaskId := h.nextTaskId + 1, hubId := hubID, projectName := projectName }

/-- `Create`. -/
def create (now : Time) (hubID projectName : String) (d : Draft) (createdBy : UserRef) :
    Except Err FileOp := do
  let status := if d.status = "" then "todo" else d.status
  let priority := if d.priority = "" then "medium" else d.priority
  let title := trimSpace d.title
  let stage := trimSpace d.stage
  -- a milestone is a point in time
  let endDate := if d.milestone ∧ d.startDate ≠ "" then d.startDate else d.endDate
  validateFields title d.description status priority d.dueDate d.docRefs
    { startDate := d.startDate, endDate, progress := d.progress, milestone := d.milestone, stage }
  pure fun pf => do
    refuse (MaxTasksPerProject ≤ pf.tasks.length)
      (.invalid s!"project already has {MaxTasksPerProject} tasks")
    let deps := normalizeDependsOn d.dependsOn
    -- a new task is on no other's list, so it needs no look for cycles; it is made one all the same
    validateDependsOn pf "" deps
    pure {
      edits := [
        .addTask
          { id := taskId pf.nextTaskId, num := pf.nextTaskId, title
            description := d.description, status, priority, dueDate := d.dueDate
            assignee := d.assignee, createdBy, createdAt := now, updatedAt := now
            rank := maxRankInStatus pf.tasks status + 1024, startDate := d.startDate, endDate
            progress := d.progress, milestone := d.milestone, stage }
          (normalizeDocRefs d.docRefs) deps,
        nextTask hubID projectName]
      returned := [pf.tasks.length] }

/-- The fields of a task with a patch on it. -/
def Patch.fields (p : Patch) (t : TaskHeader) : TaskHeader :=
  let startDate := if p.clearSchedule then "" else p.startDate.getD t.startDate
  let endDate := if p.clearSchedule then "" else p.endDate.getD t.endDate
  let milestone := if p.clearSchedule then false else p.milestone.getD t.milestone
  { t with
    title := (p.title.map trimSpace).getD t.title
    description := p.description.getD t.description
    priority := p.priority.getD t.priority
    dueDate := if p.clearDueDate then "" else p.dueDate.getD t.dueDate
    assignee := if p.clearAssignee then none else p.assignee <|> t.assignee
    startDate
    endDate := if milestone ∧ startDate ≠ "" then startDate else endDate
    progress := p.progress.getD t.progress
    milestone
    stage := (p.stage.map trimSpace).getD t.stage }

/-- The schedule of a task. -/
def TaskHeader.schedule (t : TaskHeader) : ScheduleFields :=
  { startDate := t.startDate, endDate := t.endDate, progress := t.progress
    milestone := t.milestone, stage := t.stage }

/-- `Update`. A change of status without a rank puts the task at the end of its new column. -/
def update (now : Time) (taskID : String) (p : Patch) : FileOp := fun pf =>
  match pf.tasks.findIdx? fun t => t.id = taskID with
  | none => .error (.notFound "task %q" [taskID])
  | some i =>
    match pf.tasks[i]? with
    | none => .error (.notFound "task %q" [taskID])
    | some t => do
      let new := p.fields t.toTaskHeader
      let status := p.status.getD t.status
      let docRefs := p.docRefs.getD t.docRefs
      validateFields new.title new.description status new.priority new.dueDate docRefs
        new.schedule
      p.dependsOn.elim (.ok ()) fun deps => validateDependsOn pf t.id (normalizeDependsOn deps)
      -- the column is looked through with the task already in it
      let moved := pf.tasks.modify i fun t => { t with status := status }
      let rank := p.rank.getD
        (if status ≠ t.status then maxRankInStatus moved status + 1024 else t.rank)
      let edits : List TaskEdit :=
        .fields (fun h => { p.fields h with status, rank, updatedAt := now }) ::
          (p.dependsOn.map fun deps => .setDependsOn (normalizeDependsOn deps)).toList ++
          (p.docRefs.map fun refs => .setDocRefs (normalizeDocRefs refs)).toList
      pure { edits := edits.map (.onTask i), returned := [i] }

/-- `Delete`. The id is taken out of what every other task depends on. -/
def delete (taskID : String) : FileOp := fun pf =>
  match pf.tasks.findIdx? fun t => t.id = taskID with
  | none => .error (.notFound "task %q" [taskID])
  | some i =>
    .ok {
      edits := .removeTask i ::
        (List.range (pf.tasks.eraseIdx i).length).map fun k =>
          .onTask k (.dropDependency taskID) }

/-- The loop of `ShiftTasks` that looks up the tasks: their places. -/
def findScheduled (pf : FileVal) : List String → Except Err (List Nat)
  | [] => .ok []
  | id :: ids =>
    match pf.tasks.findIdx? fun t => t.id = id with
    | none => .error (.notFound "task %q" [id])
    | some i => do
      refuse (pf.tasks[i]?.map (·.startDate) = some "") (.invalid "task %q is not scheduled" [id])
      let places ← findScheduled pf ids
      pure (i :: places)

/-- A task with its schedule moved. -/
def shiftFields (now : Time) (days : Int) (t : TaskHeader) : TaskHeader :=
  { t with startDate := shiftDay t.startDate days, endDate := shiftDay t.endDate days
           updatedAt := now }

/-- `ShiftTasks`. -/
def shiftTasks (now : Time) (taskIDs : List String) (days : Int) : Except Err FileOp := do
  refuse (days = 0 ∨ days < -MaxShiftDays ∨ MaxShiftDays < days)
    (.invalid s!"shift must be within ±{MaxShiftDays} days and not zero")
  let ids := normalizeDependsOn taskIDs
  refuse (ids = []) (.invalid "no tasks to shift")
  pure fun pf => do
    let places ← findScheduled pf ids
    pure {
      edits := places.map fun i => .onTask i (.fields (shiftFields now days))
      returned := places }

/-! ## The operations -/

/-- A call of an operation of the store. -/
inductive Op where
  | create (hubID projectName : String) (d : Draft) (createdBy : UserRef)
  | update (taskID : String) (p : Patch)
  | delete (taskID : String)
  | shiftTasks (taskIDs : List String) (days : Int)
  /-- Any of the reads of one project, which load it and copy what they return. -/
  | read
  /-- Drops what is in memory. -/
  | reset
  /-- Drops what is in memory and removes the directory. -/
  | deleteProject (r : Removal)

/-- What a mutation does before it turns to the project, and what it does there. -/
def Op.mutation (now : Time) : Op → Option (Except Err FileOp)
  | .create hubID projectName d createdBy => some (Tasks.create now hubID projectName d createdBy)
  | .update taskID p => some (.ok (Tasks.update now taskID p))
  | .delete taskID => some (.ok (Tasks.delete taskID))
  | .shiftTasks taskIDs days => some (Tasks.shiftTasks now taskIDs days)
  | .read | .reset | .deleteProject _ => none

/-- What an operation returns: the tasks it was on. -/
abbrev Result := Except Err (List TaskVal)

/-- An event of a run on a project: an operation, and what it meets with. -/
structure Event where
  env : Env
  op : Op

/-- The error of a failed save. -/
def saveErr : Err := ⟨.io, "save failed", []⟩

/-- What a removal returns. -/
def removed : Removal → Result
  | .done => .ok []
  | .failed _ => .error ⟨.removal, "tasks: deleting project data", []⟩

/-- The tasks at some places of a file. -/
def tasksAt (places : List Nat) (pf : FileVal) : List TaskVal :=
  places.filterMap fun i => pf.tasks[i]?

/-- One project of the store. -/
structure Project where
  file : Option FileVal
  disk : Option FileVal

namespace Project

/-- A project that was never touched. -/
def init : Project := { file := none, disk := none }

/-- The loaded file. -/
def loaded (p : Project) (env : Env) (projectID : String) : Except Err FileVal :=
  match p.file with
  | some pf => .ok pf
  | none => loadFile env projectID p.disk

/-- A value as a save stamps it. -/
def stamped (env : Env) (pf : FileVal) : FileVal :=
  { pf with toFileHeader := touchFile env pf.toFileHeader }

/-- A mutation of the project. -/
def mutate (p : Project) (env : Env) (projectID : String) (op : FileOp) : Project × Result :=
  match p.loaded env projectID with
  | .error e => (p, .error e)
  | .ok pf =>
    match op pf with
    | .error e => ({ p with file := some pf }, .error e)
    | .ok c =>
      let new := stamped env (applyFile c.edits pf)
      if env.dirFails || env.saveFails then ({ p with file := some pf }, .error saveErr)
      else ({ file := some new, disk := some new }, .ok (tasksAt c.returned new))

/-- One operation. -/
def exec (p : Project) (env : Env) (projectID : String) (op : Op) : Project × Result :=
  match op.mutation env.now with
  | some (.error e) => (p, .error e)
  | some (.ok fop) => p.mutate env projectID fop
  | none =>
    match op with
    | .reset => ({ p with file := none }, .ok [])
    | .deleteProject r => ({ file := none, disk := if r.gone then none else p.disk }, removed r)
    | _ =>
      match p.loaded env projectID with
      | .error e => (p, .error e)
      | .ok pf => ({ p with file := some pf }, .ok [])

/-- One event of a run. -/
def Happens (projectID : String) (p : Project) (e : Event) (p' : Project) : Prop :=
  (p.exec e.env projectID e.op).1 = p'

end Project

end Tasks
