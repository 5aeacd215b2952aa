import FusionLocalServer.Lib.Calendar
import FusionLocalServer.Lib.Decimal
import FusionLocalServer.Lib.Text
import FusionLocalServer.Storage.Schema

/-!
# The data of the production store

A project holds jobs; a job is a graph of steps, and its batches, each of which carries a
frozen copy of the plan. The records are generic in what a list of theirs is: with `List`
they are plain values, as they stand in the file, and with slices and pointers they are the
objects of the store's memory. A record's own fields, without its lists, are its header.

Canvas positions are finite floating-point numbers, taken as the rationals they are.
-/

namespace Production

open Lib (Time formatInt trimSpace)
open FusionLocalServer.Storage

def MaxJobsPerProject : Nat := 500
def MaxStepsPerJob : Nat := 200
def MaxEdgesPerJob : Nat := 400
def MaxBatchesPerJob : Nat := 500
def MaxPlanDocsPerStep : Nat := 50
def MaxPlaceholdersPerStep : Nat := 50
def MaxResultsPerStep : Nat := 12
def MaxFulfillmentsPerBatch : Nat := 1000
def MaxRefsPerBatch : Nat := 50
def MaxRefLen : Nat := 2048
def MaxNameRunes : Nat := 200
def MaxDescRunes : Nat := 20000
def MaxLabelRunes : Nat := 200
def MaxDocSnapshotFieldRunes : Nat := 2048

def StepKinds : List String := ["step", "decision"]
def ResultColors : List String := ["green", "amber", "red", "blue", "violet", "teal", "grey"]
def BatchKinds : List String := ["prove", "production"]
def BatchStatuses : List String := ["planned", "running", "complete"]

/-- The sentinel an error wraps; `io` is a failed save or load, and `removal` a failed removal
of the project's directory. -/
inductive ErrKind where
  | notFound
  | invalid
  | io
  | removal
deriving DecidableEq, Repr

/-- An error: its sentinel, the format it is printed with, and the quoted arguments. -/
structure Err where
  kind : ErrKind
  format : String
  args : List String := []
deriving DecidableEq, Repr

def Err.notFound (format : String) (args : List String) : Err := ⟨.notFound, format, args⟩

def Err.invalid (format : String) (args : List String := []) : Err := ⟨.invalid, format, args⟩

/-- Reads a step's kind; the empty one is a step's. -/
def stepKind (k : String) : String := if k = "" then "step" else k

def IsDecision (k : String) : Bool := stepKind k = "decision"

structure UserRef where
  id : String
  name : String
  email : String
deriving DecidableEq, Repr, Inhabited

structure DocSnapshot where
  hubId : String
  itemId : String
  name : String
  kind : String
  versionId : String
  versionNumber : Int
  rootComponentVersionId : String
  dmProjectId : String
deriving DecidableEq, Repr, Inhabited

structure PlanDoc where
  id : String
  doc : DocSnapshot
  addedBy : UserRef
  addedAt : Time
deriving DecidableEq, Inhabited

structure Placeholder where
  id : String
  label : String
  kind : String
  required : Bool
deriving DecidableEq, Inhabited

structure DecisionResult where
  id : String
  label : String
  color : String
deriving DecidableEq, Inhabited

structure StepHeader where
  id : String
  kind : String
  num : Int
  title : String
  description : String
  x : Rat
  y : Rat
  createdAt : Time
  updatedAt : Time
deriving DecidableEq, Inhabited

structure Step (S : Type → Type) extends StepHeader where
  results : S DecisionResult
  planDocs : S PlanDoc
  placeholders : S Placeholder

structure Edge where
  id : String
  fromStep : String
  /-- Which of a decision's results the edge leaves from; empty otherwise. -/
  fromResultId : String
  toStep : String
deriving DecidableEq, Inhabited

structure BatchStepHeader where
  stepId : String
  kind : String
  num : Int
  title : String
deriving DecidableEq, Inhabited

structure BatchStep (S : Type → Type) extends BatchStepHeader where
  planDocs : S PlanDoc
  placeholders : S Placeholder

structure Fulfillment where
  id : String
  stepId : String
  /-- Empty for an extra as-run artifact. -/
  placeholderId : String
  doc : DocSnapshot
  source : String
  isAsRun : Bool
  suppliedBy : UserRef
  suppliedAt : Time
deriving DecidableEq, Inhabited

structure BatchHeader where
  id : String
  num : Int
  name : String
  kind : String
  runAt : Time
  status : String
  createdBy : UserRef
  createdAt : Time
  updatedAt : Time
deriving DecidableEq, Inhabited

structure Batch (S : Type → Type) extends BatchHeader where
  steps : S (BatchStep S)
  fulfillments : S Fulfillment
  refs : S String
  hiddenSteps : S String

structure JobHeader where
  id : String
  num : Int
  name : String
  description : String
  nextStepNum : Int
  nextBatchNum : Int
  nextChildNum : Int
  createdBy : UserRef
  createdAt : Time
  updatedAt : Time
deriving DecidableEq, Inhabited

/-- A job whose steps and batches are reached through `P` and `Q`. -/
structure Job (S : Type → Type) (P Q : Type) extends JobHeader where
  steps : S P
  edges : S Edge
  batches : S Q

structure FileHeader where
  version : Int
  schema : Stamp
  projectId : String
  hubId : String
  projectName : String
  nextJobNum : Int
deriving DecidableEq, Inhabited

structure ProjectFile (S : Type → Type) (P : Type) extends FileHeader where
  jobs : S P

/-! ## Values -/

abbrev StepVal := Step List
abbrev BatchStepVal := BatchStep List
abbrev BatchVal := Batch List
abbrev JobVal := Job List StepVal BatchVal
abbrev FileVal := ProjectFile List JobVal

/-- What a batch keeps of a step of the plan. -/
def freeze (st : StepVal) : BatchStepVal where
  stepId := st.id
  kind := stepKind st.kind
  num := st.num
  title := st.title
  planDocs := st.planDocs
  placeholders := st.placeholders

/-! ## Ids -/

/-- A child's id: its letters and its number. -/
def childId (letters : String) (n : Int) : String := letters ++ String.ofList (formatInt n)

theorem childId_injective {letters : String} {a b : Int}
    (h : childId letters a = childId letters b) : a = b :=
  Lib.formatInt_injective (String.ofList_injective (String.append_right_inj _ |>.mp h))

/-! ## Validation -/

def validateName (name : String) : Except Err Unit :=
  if name = "" then .error (.invalid "name is empty")
  else if MaxNameRunes < name.length then
    .error (.invalid s!"name exceeds {MaxNameRunes} characters")
  else .ok ()

def validateLabel (label : String) : Except Err Unit :=
  if label = "" then .error (.invalid "label is empty")
  else if MaxLabelRunes < label.length then
    .error (.invalid s!"label exceeds {MaxLabelRunes} characters")
  else .ok ()

def validateShortField (name v : String) : Except Err Unit :=
  if MaxLabelRunes < v.length then
    .error (.invalid s!"{name} exceeds {MaxLabelRunes} characters")
  else .ok ()

def validateDesc (desc : String) : Except Err Unit :=
  if MaxDescRunes < desc.length then
    .error (.invalid s!"description exceeds {MaxDescRunes} characters")
  else .ok ()

def validateSnapshot (d : DocSnapshot) : Except Err Unit :=
  if trimSpace d.itemId = "" then .error (.invalid "document itemId is required")
  else if trimSpace d.versionId = "" then .error (.invalid "document versionId is required")
  else if [d.hubId, d.itemId, d.name, d.kind, d.versionId, d.rootComponentVersionId,
      d.dmProjectId].any fun f => MaxDocSnapshotFieldRunes < f.length then
    .error (.invalid "document reference field too long")
  else .ok ()

/-- Only task and document tokens, bounded in bytes. -/
def validateRefToken (token : String) : Except Err Unit :=
  if token = "" then .error (.invalid "reference token is empty")
  else if MaxRefLen < token.utf8ByteSize then .error (.invalid "reference token too long")
  else if ¬ "fls:task?".toList.isPrefixOf token.toList ∧
      ¬ "fls:doc?".toList.isPrefixOf token.toList then
    .error (.invalid "references must be fls:task or fls:doc tokens")
  else .ok ()

/-! ## Drafts and patches; in a patch `none` leaves a field as it is -/

structure JobDraft where
  name : String
  description : String

structure JobPatch where
  name : Option String := none
  description : Option String := none

structure StepDraft where
  kind : String := ""
  title : String
  description : String := ""
  x : Rat := 0
  y : Rat := 0

structure Position where
  x : Rat
  y : Rat

structure StepPatch where
  title : Option String := none
  description : Option String := none
  position : Option Position := none

structure ResultDraft where
  label : String
  color : String := ""

structure ResultPatch where
  label : Option String := none
  color : Option String := none

structure PlaceholderDraft where
  label : String
  kind : String := ""
  required : Bool := false

structure PlaceholderPatch where
  label : Option String := none
  kind : Option String := none
  required : Option Bool := none

structure BatchDraft where
  name : String
  kind : String := ""
  /-- `none` is the zero time. -/
  runAt : Option Time := none

structure BatchPatch where
  name : Option String := none
  kind : Option String := none
  status : Option String := none
  runAt : Option Time := none

structure FulfillmentDraft where
  stepId : String
  placeholderId : String := ""
  doc : DocSnapshot
  source : String := ""
  isAsRun : Bool := false

end Production
