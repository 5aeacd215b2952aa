import FusionLocalServer.Lib.Checks
import FusionLocalServer.Lib.Date
import FusionLocalServer.Lib.Decimal
import FusionLocalServer.Lib.Graph
import FusionLocalServer.Lib.Text
import FusionLocalServer.Storage.Schema

/-!
# The data of the task store

A project holds tasks, each with the tasks it depends on and a schedule of two dates. As in
the production store the records are generic in what a list of theirs is, and a record's own
fields are its header. The checks on the fields of a task, and on what it depends on, are
here.

Ranks are taken as the rationals they are.
-/

namespace Tasks

open Lib (Time formatInt trimSpace parseDate formatDate refuse)
open FusionLocalServer.Storage

def MaxTitleRunes : Nat := 200
def MaxDescRunes : Nat := 20000
def MaxDocRefs : Nat := 20
def MaxDocRefLen : Nat := 2048
def MaxTasksPerProject : Nat := 5000
def MaxDependsOn : Nat := 20
def MaxStageRunes : Nat := 100
def MaxShiftDays : Int := 3650

/-- The statuses are the columns of the board, in its order. -/
def Statuses : List String := ["todo", "inprogress", "blocked", "done"]
def Priorities : List String := ["low", "medium", "high", "urgent"]

/-- The sentinel an error wraps; `io` is a failed save or load, and `removal` a failed removal
of the project's directory. -/
inductive ErrKind where
  | futureVersion
  | notFound
  | invalid
  | io
  | removal
deriving DecidableEq, Repr

/-- An error: its sentinel, the format it is printed with, and the quoted arguments. -/
structure Err where
  kind : ErrKind
  format : String
  args : List String := []
deriving DecidableEq, Repr

def Err.notFound (format : String) (args : List String) : Err := ⟨.notFound, format, args⟩

def Err.invalid (format : String) (args : List String := []) : Err := ⟨.invalid, format, args⟩

structure UserRef where
  id : String
  name : String
  email : String
deriving DecidableEq, Repr, Inhabited

structure TaskHeader where
  id : String
  num : Int
  title : String
  description : String
  status : String
  priority : String
  dueDate : String
  assignee : Option UserRef
  createdBy : UserRef
  createdAt : Time
  updatedAt : Time
  /-- Where the task stands in its column. -/
  rank : Rat
  startDate : String
  endDate : String
  progress : Int
  milestone : Bool
  stage : String
deriving DecidableEq, Inhabited

structure Task (S : Type → Type) extends TaskHeader where
  docRefs : S String
  dependsOn : S String

structure FileHeader where
  version : Int
  schema : Stamp
  projectId : String
  hubId : String
  projectName : String
  nextTaskId : Int
deriving DecidableEq, Inhabited

/-- A project's file, whose tasks are reached through `P`. -/
structure ProjectFile (S : Type → Type) (P : Type) extends FileHeader where
  tasks : S P

abbrev TaskVal := Task List
abbrev FileVal := ProjectFile List TaskVal

/-- The id of the task with a number. -/
def taskId (n : Int) : String := "t" ++ String.ofList (formatInt n)

theorem taskId_injective {a b : Int} (h : taskId a = taskId b) : a = b :=
  Lib.formatInt_injective (String.ofList_injective (String.append_right_inj _ |>.mp h))

/-! ## Drafts and patches -/

structure Draft where
  title : String
  description : String := ""
  status : String := ""
  priority : String := ""
  dueDate : String := ""
  assignee : Option UserRef := none
  docRefs : List String := []
  startDate : String := ""
  endDate : String := ""
  progress : Int := 0
  milestone : Bool := false
  dependsOn : List String := []
  stage : String := ""

/-- What is not given is left as it is. -/
structure Patch where
  title : Option String := none
  description : Option String := none
  status : Option String := none
  priority : Option String := none
  dueDate : Option String := none
  assignee : Option UserRef := none
  clearAssignee : Bool := false
  clearDueDate : Bool := false
  docRefs : Option (List String) := none
  rank : Option Rat := none
  startDate : Option String := none
  endDate : Option String := none
  clearSchedule : Bool := false
  progress : Option Int := none
  milestone : Option Bool := none
  dependsOn : Option (List String) := none
  stage : Option String := none

/-! ## Fields -/

/-- `scheduleFields` -/
structure ScheduleFields where
  startDate : String
  endDate : String
  progress : Int
  milestone : Bool
  stage : String

/-- The text is a date, YYYY-MM-DD. -/
def IsDay (s : String) : Prop := parseDate s.toList ≠ none

instance (s : String) : Decidable (IsDay s) := inferInstanceAs (Decidable (_ ≠ none))

def docRefPrefixes : List String := ["fls:doc?", "fls:job?", "fls:batch?", "fls:whiteboard?"]

/-- The token is a card of a document, a job, a batch or a whiteboard. -/
def DocRefOk (ref : String) : Prop :=
  (∃ p ∈ docRefPrefixes, p.toList <+: ref.toList) ∧ ref.utf8ByteSize ≤ MaxDocRefLen

instance (ref : String) : Decidable (DocRefOk ref) := by
  unfold DocRefOk
  infer_instance

def validateFields (title desc status priority due : String) (docRefs : List String)
    (sched : ScheduleFields) : Except Err Unit := do
  refuse (title = "") (.invalid "title is empty")
  refuse (MaxTitleRunes < title.length) (.invalid s!"title exceeds {MaxTitleRunes} characters")
  refuse (MaxDescRunes < desc.length) (.invalid s!"description exceeds {MaxDescRunes} characters")
  refuse (status ∉ Statuses) (.invalid "unknown status %q" [status])
  refuse (priority ∉ Priorities) (.invalid "unknown priority %q" [priority])
  refuse (due ≠ "" ∧ ¬ IsDay due) (.invalid "due date must be YYYY-MM-DD")
  refuse (MaxDocRefs < docRefs.length) (.invalid s!"at most {MaxDocRefs} attached documents")
  refuse (∃ ref ∈ docRefs, ¬ DocRefOk ref)
    (.invalid "attachments must be fls:doc, fls:job, fls:batch or fls:whiteboard tokens")
  refuse ((sched.startDate = "") ≠ (sched.endDate = ""))
    (.invalid "startDate and endDate must be set together")
  refuse (sched.startDate ≠ "" ∧ ¬ IsDay sched.startDate)
    (.invalid "start date must be YYYY-MM-DD")
  refuse (sched.startDate ≠ "" ∧ ¬ IsDay sched.endDate) (.invalid "end date must be YYYY-MM-DD")
  -- both dates share one format, so string order is date order
  refuse (sched.startDate ≠ "" ∧ sched.endDate < sched.startDate)
    (.invalid "end date is before start date")
  refuse (sched.progress < 0 ∨ 100 < sched.progress)
    (.invalid "progress must be between 0 and 100")
  refuse (sched.milestone ∧ sched.startDate = "") (.invalid "a milestone needs a schedule")
  refuse (sched.milestone ∧ sched.endDate ≠ sched.startDate)
    (.invalid "a milestone's end date must equal its start date")
  refuse (MaxStageRunes < sched.stage.length)
    (.invalid s!"stage exceeds {MaxStageRunes} characters")

def normalizeDocRefs (refs : List String) : List String :=
  (refs.map trimSpace).filter fun r => r ≠ ""

/-- Trims, drops empties and dedupes while preserving order. -/
def normalizeDependsOn (deps : List String) : List String :=
  deps.foldl (fun out d =>
    let d := trimSpace d
    if d ≠ "" ∧ d ∉ out then out ++ [d] else out) []

/-- Moves a YYYY-MM-DD date by whole days; what is no date stays. -/
def shiftDay (day : String) (days : Int) : String :=
  match parseDate day.toList with
  | none => day
  | some d => String.ofList (formatDate (d + days))

/-! ## What a task depends on -/

def findTask (pf : FileVal) (taskID : String) : Option TaskVal :=
  pf.tasks.find? fun t => t.id = taskID

/-- What the task with an id depends on. -/
def dependencies (pf : FileVal) (id : String) : List String :=
  match findTask pf id with
  | some t => t.dependsOn
  | none => []

/-- Whether following the dependencies from the new list leads back to the task. The search
is given as many turns as it can ever push nodes. -/
def dependsOnCycle (pf : FileVal) (selfID : String) (newDeps : List String) : Bool :=
  Lib.Graph.walk (dependencies pf) selfID
    (newDeps.length + (pf.tasks.map fun t => (dependencies pf t.id).length).sum + 1) [selfID]
    newDeps.reverse

/-- The loop over the dependencies in `validateDependsOn`. -/
def validateEach (pf : FileVal) (selfID : String) : List String → Except Err Unit
  | [] => .ok ()
  | dep :: deps => do
    refuse (dep = selfID) (.invalid "a task cannot depend on itself")
    refuse (findTask pf dep = none) (.invalid "dependency %q not found" [dep])
    validateEach pf selfID deps

def validateDependsOn (pf : FileVal) (selfID : String) (deps : List String) :
    Except Err Unit := do
  refuse (MaxDependsOn < deps.length) (.invalid s!"at most {MaxDependsOn} dependencies")
  validateEach pf selfID deps
  refuse (dependsOnCycle pf selfID deps) (.invalid "dependencies would form a cycle")

/-- The highest rank in a column, zero when none is higher. -/
def maxRankInStatus (tasks : List TaskVal) (status : String) : Rat :=
  tasks.foldl (fun max t => if t.status = status ∧ max < t.rank then t.rank else max) 0

end Tasks
