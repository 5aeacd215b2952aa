import FusionLocalServer.Production.Plan

/-!
# A project as a value

What the store means to be for one project: the project's data, when it is loaded, and the
file on disk. An operation that fails, in its checks or in the save, leaves both as they
were, apart from the provenance stamp; one that succeeds changes both alike. The store's
memory, with its pointers and slices edited in place, is shown to be this.

The calls on the whole file are closures like those on a job. What is outside the store is
the environment of each operation: the time, the version of the program, whether reading
and saving fail.
-/

namespace Production

open Lib (Time trimSpace)
open FusionLocalServer.Storage

def fileVersion : Int := 3

/-! ## The file -/

/-- What a save does to the file's header in memory, whether it succeeds or not. -/
def touchFile (env : Env) (h : FileHeader) : FileHeader :=
  if env.dirFails then h else { h with schema := h.schema.touch env }

/-- The file of a project without one. -/
def freshFile (env : Env) (projectID : String) : FileVal :=
  { version := fileVersion, schema := newStamp env, projectId := projectID, hubId := ""
    projectName := "", nextJobNum := 1, jobs := [] }

/-- Child counters that predate a field or were zeroed. -/
def repairJob (j : JobHeader) : JobHeader :=
  { j with
    nextStepNum := if j.nextStepNum < 1 then 1 else j.nextStepNum
    nextBatchNum := if j.nextBatchNum < 1 then 1 else j.nextBatchNum
    nextChildNum := if j.nextChildNum < 1 then 1 else j.nextChildNum }

def repairFile (env : Env) (h : FileHeader) : FileHeader :=
  { h with
    version := fileVersion
    nextJobNum := if h.nextJobNum < 1 then 1 else h.nextJobNum
    schema := if h.schema.createdAt = zeroTime then backfill env else h.schema }

/-- What `loadFile` makes of the file on disk. The migrations of older versions leave the
data as it is. -/
def loadFile (env : Env) (projectID : String) (disk : Option FileVal) : Except Err FileVal :=
  if env.readFails then .error ⟨.io, "reading %s", []⟩
  else
    match disk with
    | none => .ok (freshFile env projectID)
    | some pf =>
      if fileVersion < pf.version then
        .error ⟨.io, "production: data written by a newer version", []⟩
      else
        .ok { pf with
          toFileHeader := repairFile env pf.toFileHeader
          jobs := pf.jobs.map fun j => { j with toJobHeader := repairJob j.toJobHeader } }

/-! ## Closures on the file -/

/-- A write through the pointer to the file. -/
inductive FileEdit where
  | fields (f : FileHeader → FileHeader)
  /-- Appends a new job without steps. -/
  | addJob (j : JobHeader)
  /-- Appends a copy of a job's plan under a changed header. -/
  | copyJob (i : Nat) (f : JobHeader → JobHeader)
  | removeJob (i : Nat)

/-- A job as `CreateJob` makes it. -/
def newJob (h : JobHeader) : JobVal := { toJobHeader := h, steps := [], edges := [], batches := [] }

/-- A job as `DuplicateJob` makes it of another. -/
def duplicate (f : JobHeader → JobHeader) (j : JobVal) : JobVal :=
  { j with toJobHeader := f j.toJobHeader, batches := [] }

def FileEdit.apply (pf : FileVal) : FileEdit → FileVal
  | .fields f => { pf with toFileHeader := f pf.toFileHeader }
  | .addJob j => { pf with jobs := pf.jobs ++ [newJob j] }
  | .copyJob i f => { pf with jobs := pf.jobs ++ (pf.jobs[i]?.map (duplicate f)).toList }
  | .removeJob i => { pf with jobs := pf.jobs.eraseIdx i }

def applyFile (edits : List FileEdit) (pf : FileVal) : FileVal := edits.foldl FileEdit.apply pf

abbrev FileOp := FileVal → Except Err (List FileEdit)

/-- Takes the next job number, and refreshes what the file says of its project. -/
def nextJob (hubID projectName : String) : FileEdit := .fields fun h =>
  { h with nextJobNum := h.nextJobNum + 1, hubId := hubID, projectName := projectName }

def createJob (now : Time) (hubID projectName : String) (d : JobDraft) (createdBy : UserRef) :
    Except Err FileOp := do
  let name := trimSpace d.name
  validateName name
  validateDesc d.description
  pure fun pf =>
    if MaxJobsPerProject ≤ pf.jobs.length then
      .error (.invalid s!"project already has {MaxJobsPerProject} jobs")
    else
      .ok [.addJob
          { id := childId "j" pf.nextJobNum, num := pf.nextJobNum, name
            description := d.description, nextStepNum := 1, nextBatchNum := 1
            nextChildNum := 1, createdBy, createdAt := now, updatedAt := now },
        nextJob hubID projectName]

def copySuffix : String := " (copy)"

/-- Appends the copy suffix to a name cut to leave it room. -/
def copyName (name : String) : String :=
  let room := MaxNameRunes - copySuffix.length
  let r := name.toList
  String.ofList (if room < r.length then r.take room else r) ++ copySuffix

def duplicateJob (now : Time) (hubID projectName jobID : String) (createdBy : UserRef) :
    Except Err FileOp :=
  pure fun pf =>
    if MaxJobsPerProject ≤ pf.jobs.length then
      .error (.invalid s!"project already has {MaxJobsPerProject} jobs")
    else
      match pf.jobs.findIdx? fun j => j.id = jobID with
      | none => .error (.notFound "job %q" [jobID])
      | some i =>
        .ok [.copyJob i fun h =>
            { h with
              id := childId "j" pf.nextJobNum, num := pf.nextJobNum, name := copyName h.name
              nextBatchNum := 1, createdBy, createdAt := now, updatedAt := now },
          nextJob hubID projectName]

def deleteJob (jobID : String) : Except Err FileOp :=
  pure fun pf =>
    match pf.jobs.findIdx? fun j => j.id = jobID with
    | none => .error (.notFound "job %q" [jobID])
    | some i => .ok [.removeJob i]

/-! ## The operations -/

/-- A call of an operation of the store. -/
inductive Op where
  | createJob (hubID projectName : String) (d : JobDraft) (createdBy : UserRef)
  | duplicateJob (hubID projectName jobID : String) (createdBy : UserRef)
  | deleteJob (jobID : String)
  | onJob (jobID : String) (c : JobCall)
  /-- Any of the reads, which load the project and copy what they return. -/
  | read
  /-- Drops what is in memory. -/
  | reset
  /-- Drops what is in memory and removes the directory. -/
  | deleteProject (r : Removal)

/-- What an operation returns: nothing, or the job it was on. -/
abbrev Result := Except Err (Option JobVal)

/-- An event of a run on a project: an operation, and what it meets with. -/
structure Event where
  env : Env
  op : Op

/-- What a removal returns. -/
def removed : Removal → Result
  | .done => .ok none
  | .failed _ => .error ⟨.removal, "deleting project data", []⟩

/-- One project of the store. -/
structure Project where
  file : Option FileVal
  disk : Option FileVal

namespace Project

/-- A project that was never touched. -/
def init : Project := { file := none, disk := none }

/-- The loaded file. -/
def loaded (p : Project) (env : Env) (projectID : String) : Except Err FileVal :=
  match p.file with
  | some pf => .ok pf
  | none => loadFile env projectID p.disk

/-- The outcome of saving `new`; when it fails, `old` stays. -/
def save (p : Project) (env : Env) (old new : FileVal) (result : Option JobVal) :
    Project × Result :=
  let touched : FileVal := { new with toFileHeader := touchFile env new.toFileHeader }
  if env.dirFails || env.saveFails then ({ p with file := some old }, .error ⟨.io, "save failed", []⟩)
  else ({ file := some touched, disk := some touched }, .ok result)

/-- `mutate`. -/
def mutate (p : Project) (env : Env) (projectID : String) (op : FileOp) : Project × Result :=
  match p.loaded env projectID with
  | .error e => (p, .error e)
  | .ok pf =>
    match op pf with
    | .error e => ({ p with file := some pf }, .error e)
    | .ok edits => p.save env pf (applyFile edits pf) none

/-- `mutateJob`. -/
def mutateJob (p : Project) (env : Env) (projectID jobID : String) (op : JobOp) :
    Project × Result :=
  match p.loaded env projectID with
  | .error e => (p, .error e)
  | .ok pf =>
    match pf.jobs.findIdx? fun j => j.id = jobID with
    | none => ({ p with file := some pf }, .error (.notFound "job %q" [jobID]))
    | some i =>
      match pf.jobs[i]? with
      | none => ({ p with file := some pf }, .error (.notFound "job %q" [jobID]))
      | some j =>
        match op j with
        | .error e => ({ p with file := some pf }, .error e)
        | .ok edits =>
          let j' := applyAll (edits ++ [touchJob env.now]) j
          -- a failed save puts the old job back, but leaves the stamp
          let old : FileVal := { pf with toFileHeader := touchFile env pf.toFileHeader }
          p.save env old { pf with jobs := pf.jobs.set i j' } (some j')

/-- One operation. -/
def exec (p : Project) (env : Env) (projectID : String) : Op → Project × Result
  | .createJob hubID projectName d createdBy =>
    match Production.createJob env.now hubID projectName d createdBy with
    | .error e => (p, .error e)
    | .ok op => p.mutate env projectID op
  | .duplicateJob hubID projectName jobID createdBy =>
    match Production.duplicateJob env.now hubID projectName jobID createdBy with
    | .error e => (p, .error e)
    | .ok op => p.mutate env projectID op
  | .deleteJob jobID =>
    match Production.deleteJob jobID with
    | .error e => (p, .error e)
    | .ok op => p.mutate env projectID op
  | .onJob jobID c =>
    match c.closure env.now with
    | .error e => (p, .error e)
    | .ok op => p.mutateJob env projectID jobID op
  | .read =>
    match p.loaded env projectID with
    | .error e => (p, .error e)
    | .ok pf => ({ p with file := some pf }, .ok none)
  | .reset => ({ p with file := none }, .ok none)
  | .deleteProject r => ({ file := none, disk := if r.gone then none else p.disk }, removed r)

/-- One event of a run. -/
def Happens (projectID : String) (p : Project) (e : Event) (p' : Project) : Prop :=
  (p.exec e.env projectID e.op).1 = p'

end Project

end Production
