import FusionLocalServer.Lib.Ownership
import FusionLocalServer.Lib.Run
import FusionLocalServer.Production.Project

/-!
# The production store in memory

The objects of a loaded project: the file, jobs, steps and batches behind pointers, and the
slices of all of them, which the store edits in place. What `copyJob`, `CreateBatch` and
the rollback copy, and what they leave shared, is here as the source has it.

The value of the project in memory is read off the objects by `fileShape`. A closure's
checks look at the job's value; its writes are made through the pointers.
-/

namespace Production

open Lib (Memory View Slice)
open Lib.Memory
open FusionLocalServer.Storage

instance : Inhabited (Step Slice) := ⟨⟨default, default, default, default⟩⟩
instance : Inhabited (BatchStep Slice) := ⟨⟨default, default, default⟩⟩
instance : Inhabited (Batch Slice) := ⟨⟨default, default, default, default, default⟩⟩
instance : Inhabited (Job Slice Nat Nat) := ⟨⟨default, default, default, default⟩⟩
instance : Inhabited (ProjectFile Slice Nat) := ⟨⟨default, default⟩⟩

/-- What a cell of the memory holds. -/
inductive Cell where
  | file (x : ProjectFile Slice Nat)
  | job (x : Job Slice Nat Nat)
  | step (x : Step Slice)
  | batch (x : Batch Slice)
  | pointers (xs : List Nat)
  | edges (xs : List Edge)
  | results (xs : List DecisionResult)
  | planDocs (xs : List PlanDoc)
  | placeholders (xs : List Placeholder)
  | batchSteps (xs : List (BatchStep Slice))
  | fulfillments (xs : List Fulfillment)
  | strings (xs : List String)

abbrev Mem := Memory Cell

namespace View

def file : View Cell (ProjectFile Slice Nat) where
  get | .file x => x | _ => default
  put := .file
  get_put _ := rfl

def job : View Cell (Job Slice Nat Nat) where
  get | .job x => x | _ => default
  put := .job
  get_put _ := rfl

def step : View Cell (Step Slice) where
  get | .step x => x | _ => default
  put := .step
  get_put _ := rfl

def batch : View Cell (Batch Slice) where
  get | .batch x => x | _ => default
  put := .batch
  get_put _ := rfl

def pointers : View Cell (List Nat) where
  get | .pointers xs => xs | _ => []
  put := .pointers
  get_put _ := rfl

def edges : View Cell (List Edge) where
  get | .edges xs => xs | _ => []
  put := .edges
  get_put _ := rfl

def results : View Cell (List DecisionResult) where
  get | .results xs => xs | _ => []
  put := .results
  get_put _ := rfl

def planDocs : View Cell (List PlanDoc) where
  get | .planDocs xs => xs | _ => []
  put := .planDocs
  get_put _ := rfl

def placeholders : View Cell (List Placeholder) where
  get | .placeholders xs => xs | _ => []
  put := .placeholders
  get_put _ := rfl

def batchSteps : View Cell (List (BatchStep Slice)) where
  get | .batchSteps xs => xs | _ => []
  put := .batchSteps
  get_put _ := rfl

def fulfillments : View Cell (List Fulfillment) where
  get | .fulfillments xs => xs | _ => []
  put := .fulfillments
  get_put _ := rfl

def strings : View Cell (List String) where
  get | .strings xs => xs | _ => []
  put := .strings
  get_put _ := rfl

end View

/-! ## How values lie in memory -/

/-- A step object: its plan documents, placeholders and results. -/
def stepShape : Shape Cell Nat StepVal :=
  (((Shape.data View.planDocs).pair ((Shape.data View.placeholders).pair
    (Shape.data View.results))).via
      (fun st : Step Slice => (st.planDocs, st.placeholders, st.results))
      fun st v => { toStepHeader := st.toStepHeader, planDocs := v.1, placeholders := v.2.1
                    results := v.2.2 }).ptr View.step

/-- A frozen step, which lies in its slice. -/
def batchStepShape : Shape Cell (BatchStep Slice) BatchStepVal :=
  ((Shape.data View.planDocs).pair (Shape.data View.placeholders)).via
    (fun bs => (bs.planDocs, bs.placeholders))
    fun bs v => { toBatchStepHeader := bs.toBatchStepHeader, planDocs := v.1
                  placeholders := v.2 }

/-- A batch object: its frozen steps, fulfillments, references and hidden steps. -/
def batchShape : Shape Cell Nat BatchVal :=
  (((Shape.each View.batchSteps batchStepShape).pair ((Shape.data View.fulfillments).pair
    ((Shape.data View.strings).pair (Shape.data View.strings)))).via
      (fun b : Batch Slice => (b.steps, b.fulfillments, b.refs, b.hiddenSteps))
      fun b v => { toBatchHeader := b.toBatchHeader, steps := v.1, fulfillments := v.2.1
                   refs := v.2.2.1, hiddenSteps := v.2.2.2 }).ptr View.batch

/-- A job object: its steps, edges and batches. -/
def jobShape : Shape Cell Nat JobVal :=
  (((Shape.each View.pointers stepShape).pair ((Shape.data View.edges).pair
    (Shape.each View.pointers batchShape))).via
      (fun j : Job Slice Nat Nat => (j.steps, j.edges, j.batches))
      fun j v => { toJobHeader := j.toJobHeader, steps := v.1, edges := v.2.1
                   batches := v.2.2 }).ptr View.job

/-- The file object. -/
def fileShape : Shape Cell Nat FileVal :=
  ((Shape.each View.pointers jobShape).via (fun pf : ProjectFile Slice Nat => pf.jobs)
    fun pf v => { toFileHeader := pf.toFileHeader, jobs := v }).ptr View.file

/-! ## Copies -/

section Copies

variable (grow : Nat → Nat)

/-- `append([]T(nil), s...)` -/
def copySlice {α : Type} [Inhabited α] (view : View Cell (List α)) (m : Mem) (s : Slice α) :
    Mem × Slice α :=
  m.newSlice view (grow (m.elems view s).length) (m.elems view s)

def copyStep (m : Mem) (p : Nat) : Mem × Nat :=
  let st := m.read View.step p
  let (m, planDocs) := copySlice grow View.planDocs m st.planDocs
  let (m, placeholders) := copySlice grow View.placeholders m st.placeholders
  let (m, results) := copySlice grow View.results m st.results
  m.alloc View.step { toStepHeader := st.toStepHeader, planDocs, placeholders, results }

/-- The body of the loop over the steps in `copyBatch`. -/
def copyBatchStep (m : Mem) (bs : BatchStep Slice) : Mem × BatchStep Slice :=
  let (m, planDocs) := copySlice grow View.planDocs m bs.planDocs
  let (m, placeholders) := copySlice grow View.placeholders m bs.placeholders
  (m, { toBatchStepHeader := bs.toBatchStepHeader, planDocs, placeholders })

def copyBatch (m : Mem) (p : Nat) : Mem × Nat :=
  let b := m.read View.batch p
  let (m, copies) := mapFresh (copyBatchStep grow) m (m.elems View.batchSteps b.steps)
  let (m, steps) := m.newSlice View.batchSteps 0 copies
  let (m, fulfillments) := copySlice grow View.fulfillments m b.fulfillments
  let (m, refs) := copySlice grow View.strings m b.refs
  let (m, hiddenSteps) := copySlice grow View.strings m b.hiddenSteps
  m.alloc View.batch
    { toBatchHeader := b.toBatchHeader, steps, fulfillments, refs, hiddenSteps }

def copyJob (m : Mem) (p : Nat) : Mem × Nat :=
  let j := m.read View.job p
  let (m, copies) := mapFresh (copyStep grow) m (m.elems View.pointers j.steps)
  let (m, steps) := m.newSlice View.pointers 0 copies
  let (m, edges) := copySlice grow View.edges m j.edges
  let (m, copies) := mapFresh (copyBatch grow) m (m.elems View.pointers j.batches)
  let (m, batches) := m.newSlice View.pointers 0 copies
  m.alloc View.job { toJobHeader := j.toJobHeader, steps, edges, batches }

def cloneFile (m : Mem) (p : Nat) : Mem × Nat :=
  let pf := m.read View.file p
  let (m, copies) := mapFresh (copyJob grow) m (m.elems View.pointers pf.jobs)
  let (m, jobs) := m.newSlice View.pointers 0 copies
  m.alloc View.file { toFileHeader := pf.toFileHeader, jobs }

/-! ## Writes -/

def StepEdit.exec (m : Mem) (p : Nat) : StepEdit → Mem
  | .fields f =>
    let st := m.read View.step p
    m.write View.step p { st with toStepHeader := f st.toStepHeader }
  | .results e =>
    let st := m.read View.step p
    let (m, s) := e.exec View.results (grow st.results.len) m st.results
    m.write View.step p { st with results := s }
  | .planDocs e =>
    let st := m.read View.step p
    let (m, s) := e.exec View.planDocs (grow st.planDocs.len) m st.planDocs
    m.write View.step p { st with planDocs := s }
  | .placeholders e =>
    let st := m.read View.step p
    let (m, s) :=
      e.exec View.placeholders (grow st.placeholders.len) m st.placeholders
    m.write View.step p { st with placeholders := s }

def BatchEdit.exec (m : Mem) (p : Nat) : BatchEdit → Mem
  | .fields f =>
    let b := m.read View.batch p
    m.write View.batch p { b with toBatchHeader := f b.toBatchHeader }
  | .fulfillments e =>
    let b := m.read View.batch p
    let (m, s) :=
      e.exec View.fulfillments (grow b.fulfillments.len) m b.fulfillments
    m.write View.batch p { b with fulfillments := s }
  | .refs e =>
    let b := m.read View.batch p
    let (m, s) := e.exec View.strings (grow b.refs.len) m b.refs
    m.write View.batch p { b with refs := s }
  | .hiddenSteps e =>
    let b := m.read View.batch p
    let (m, s) := e.exec View.strings (grow b.hiddenSteps.len) m b.hiddenSteps
    m.write View.batch p { b with hiddenSteps := s }

/-- The step `CreateStep` appends. -/
def allocStep (m : Mem) (st : StepHeader) : Mem × Nat :=
  let (m, planDocs) := m.newSlice View.planDocs 0 []
  let (m, placeholders) := m.newSlice View.placeholders 0 []
  let (m, results) := m.newSlice View.results 0 []
  m.alloc View.step { toStepHeader := st, planDocs, placeholders, results }

/-- The loop body of `CreateBatch` that freezes one step of the live plan. -/
def freezeStep (m : Mem) (p : Nat) : Mem × BatchStep Slice :=
  let st := m.read View.step p
  let (m, planDocs) := copySlice grow View.planDocs m st.planDocs
  let (m, placeholders) := copySlice grow View.placeholders m st.placeholders
  (m, { stepId := st.id, kind := stepKind st.kind, num := st.num, title := st.title
        planDocs, placeholders })

/-- The batch `CreateBatch` appends, of the steps the pointers are to. -/
def allocBatch (m : Mem) (b : BatchHeader) (live : List Nat) : Mem × Nat :=
  let (m, frozen) := mapFresh (freezeStep grow) m live
  let (m, steps) := m.newSlice View.batchSteps (grow frozen.length) frozen
  let (m, fulfillments) := m.newSlice View.fulfillments 0 []
  let (m, refs) := m.newSlice View.strings 0 []
  let (m, hiddenSteps) := m.newSlice View.strings 0 []
  m.alloc View.batch { toBatchHeader := b, steps, fulfillments, refs, hiddenSteps }

def JobEdit.exec (m : Mem) (p : Nat) : JobEdit → Mem
  | .fields f =>
    let j := m.read View.job p
    m.write View.job p { j with toJobHeader := f j.toJobHeader }
  | .edges e =>
    let j := m.read View.job p
    let (m, s) := e.exec View.edges (grow j.edges.len) m j.edges
    m.write View.job p { j with edges := s }
  | .addStep st =>
    let j := m.read View.job p
    let (m, q) := allocStep m st
    let (m, steps) := m.append View.pointers (grow j.steps.len) j.steps q
    m.write View.job p { j with steps }
  | .removeStep i =>
    let j := m.read View.job p
    let (m, steps) := m.removeAt View.pointers j.steps i
    m.write View.job p { j with steps }
  | .onStep i e =>
    match (m.elems View.pointers (m.read View.job p).steps)[i]? with
    | none => m
    | some q => e.exec grow m q
  | .addBatch b =>
    let j := m.read View.job p
    let (m, q) := allocBatch grow m b (m.elems View.pointers j.steps)
    let (m, batches) := m.append View.pointers (grow j.batches.len) j.batches q
    m.write View.job p { j with batches }
  | .removeBatch i =>
    let j := m.read View.job p
    let (m, batches) := m.removeAt View.pointers j.batches i
    m.write View.job p { j with batches }
  | .onBatch i e =>
    match (m.elems View.pointers (m.read View.job p).batches)[i]? with
    | none => m
    | some q => e.exec grow m q

/-- The writes of a closure, in order. -/
def execAll (edits : List JobEdit) (m : Mem) (p : Nat) : Mem :=
  edits.foldl (fun m e => e.exec grow m p) m

/-- The job `CreateJob` appends. -/
def allocJob (m : Mem) (h : JobHeader) : Mem × Nat :=
  let (m, steps) := m.newSlice View.pointers 0 []
  let (m, edges) := m.newSlice View.edges 0 []
  let (m, batches) := m.newSlice View.pointers 0 []
  m.alloc View.job { toJobHeader := h, steps, edges, batches }

/-- What `DuplicateJob` does to its copy. -/
def resetCopy (f : JobHeader → JobHeader) (m : Mem) (p : Nat) : Mem :=
  let j := m.read View.job p
  let (m, batches) := m.newSlice View.pointers 0 []
  m.write View.job p { toJobHeader := f j.toJobHeader, steps := j.steps, edges := j.edges, batches }

def FileEdit.exec (m : Mem) (p : Nat) : FileEdit → Mem
  | .fields f =>
    let pf := m.read View.file p
    m.write View.file p { pf with toFileHeader := f pf.toFileHeader }
  | .addJob h =>
    let pf := m.read View.file p
    let (m, q) := allocJob m h
    let (m, jobs) := m.append View.pointers (grow pf.jobs.len) pf.jobs q
    m.write View.file p { pf with jobs }
  | .copyJob i f =>
    let pf := m.read View.file p
    match (m.elems View.pointers pf.jobs)[i]? with
    | none => m
    | some src =>
      let (m, q) := Production.copyJob grow m src
      let m := resetCopy f m q
      let (m, jobs) := m.append View.pointers (grow pf.jobs.len) pf.jobs q
      m.write View.file p { pf with jobs }
  | .removeJob i =>
    let pf := m.read View.file p
    let (m, jobs) := m.removeAt View.pointers pf.jobs i
    m.write View.file p { pf with jobs }

def execFile (edits : List FileEdit) (m : Mem) (p : Nat) : Mem :=
  edits.foldl (fun m e => e.exec grow m p) m

/-! ## What decoding a file makes -/

def decodeStep (m : Mem) (st : StepVal) : Mem × Nat :=
  let (m, planDocs) := m.newSlice View.planDocs (grow st.planDocs.length) st.planDocs
  let (m, placeholders) :=
    m.newSlice View.placeholders (grow st.placeholders.length) st.placeholders
  let (m, results) := m.newSlice View.results (grow st.results.length) st.results
  m.alloc View.step { toStepHeader := st.toStepHeader, planDocs, placeholders, results }

def decodeBatchStep (m : Mem) (bs : BatchStepVal) : Mem × BatchStep Slice :=
  let (m, planDocs) := m.newSlice View.planDocs (grow bs.planDocs.length) bs.planDocs
  let (m, placeholders) :=
    m.newSlice View.placeholders (grow bs.placeholders.length) bs.placeholders
  (m, { toBatchStepHeader := bs.toBatchStepHeader, planDocs, placeholders })

def decodeBatch (m : Mem) (b : BatchVal) : Mem × Nat :=
  let (m, made) := mapFresh (decodeBatchStep grow) m b.steps
  let (m, steps) := m.newSlice View.batchSteps (grow made.length) made
  let (m, fulfillments) :=
    m.newSlice View.fulfillments (grow b.fulfillments.length) b.fulfillments
  let (m, refs) := m.newSlice View.strings (grow b.refs.length) b.refs
  let (m, hiddenSteps) := m.newSlice View.strings (grow b.hiddenSteps.length) b.hiddenSteps
  m.alloc View.batch
    { toBatchHeader := b.toBatchHeader, steps, fulfillments, refs, hiddenSteps }

def decodeJob (m : Mem) (j : JobVal) : Mem × Nat :=
  let (m, made) := mapFresh (decodeStep grow) m j.steps
  let (m, steps) := m.newSlice View.pointers (grow made.length) made
  let (m, edges) := m.newSlice View.edges (grow j.edges.length) j.edges
  let (m, made) := mapFresh (decodeBatch grow) m j.batches
  let (m, batches) := m.newSlice View.pointers (grow made.length) made
  m.alloc View.job { toJobHeader := j.toJobHeader, steps, edges, batches }

def decodeFile (m : Mem) (pf : FileVal) : Mem × Nat :=
  let (m, made) := mapFresh (decodeJob grow) m pf.jobs
  let (m, jobs) := m.newSlice View.pointers (grow made.length) made
  m.alloc View.file { toFileHeader := pf.toFileHeader, jobs }

end Copies

/-! ## The store -/

/-- One project of the store: the memory, the pointer to the loaded file, and the disk. -/
structure State where
  mem : Mem
  file : Option Nat
  disk : Option FileVal

namespace State

/-- A project that was never touched. -/
def init : State :=
  { mem := { next := 0, cell := fun _ => .pointers [] }, file := none, disk := none }

/-- The value of the file in memory. -/
def value (s : State) (p : Nat) : FileVal := fileShape.val s.mem p

/-- `project`: the pointer to the file, which is loaded first if need be. -/
def project (s : State) (env : Env) (projectID : String) : Except Err (State × Nat) :=
  match s.file with
  | some p => .ok (s, p)
  | none =>
    match loadFile env projectID s.disk with
    | .error e => .error e
    | .ok pf =>
      let (mem, p) := decodeFile env.grow s.mem pf
      .ok ({ s with mem, file := some p }, p)

/-- `saveFile`; true when it succeeds. -/
def saveFile (s : State) (env : Env) (p : Nat) : State × Bool :=
  if env.dirFails then (s, false)
  else
    let pf := s.mem.read View.file p
    let s := { s with
      mem := s.mem.write View.file p { pf with toFileHeader := touchFile env pf.toFileHeader } }
    if env.saveFails then (s, false) else ({ s with disk := some (s.value p) }, true)

/-- The error of a failed save. -/
def saveErr : Err := ⟨.io, "save failed", []⟩

/-- `mutate`. -/
def mutate (s : State) (env : Env) (projectID : String) (op : FileOp) : State × Result :=
  match s.project env projectID with
  | .error e => (s, .error e)
  | .ok (s, p) =>
    let (mem, prev) := cloneFile env.grow s.mem p
    let s := { s with mem }
    match op (s.value p) with
    | .error e => ({ s with file := some prev }, .error e)
    | .ok edits =>
      let s := { s with mem := execFile env.grow edits s.mem p }
      let (s, saved) := s.saveFile env p
      if saved then (s, .ok none) else ({ s with file := some prev }, .error saveErr)

/-- Puts a job back into its slot. -/
def restore (s : State) (p i prev : Nat) : State :=
  { s with mem := s.mem.setAt View.pointers (s.mem.read View.file p).jobs i prev }

/-- `mutateJob`. -/
def mutateJob (s : State) (env : Env) (projectID jobID : String) (op : JobOp) :
    State × Result :=
  match s.project env projectID with
  | .error e => (s, .error e)
  | .ok (s, p) =>
    let jobs := s.mem.elems View.pointers (s.mem.read View.file p).jobs
    match jobs.findIdx? fun q => (s.mem.read View.job q).id = jobID with
    | none => (s, .error (.notFound "job %q" [jobID]))
    | some i =>
      match jobs[i]? with
      | none => (s, .error (.notFound "job %q" [jobID]))
      | some q =>
        let (mem, prev) := copyJob env.grow s.mem q
        let s := { s with mem }
        match op (jobShape.val s.mem q) with
        | .error e => (s.restore p i prev, .error e)
        | .ok edits =>
          let s := { s with mem := execAll env.grow (edits ++ [touchJob env.now]) s.mem q }
          let snapshot := jobShape.val s.mem q
          let (s, saved) := s.saveFile env p
          if saved then (s, .ok (some snapshot)) else (s.restore p i prev, .error saveErr)

/-- One operation. -/
def exec (s : State) (env : Env) (projectID : String) : Op → State × Result
  | .createJob hubID projectName d createdBy =>
    match Production.createJob env.now hubID projectName d createdBy with
    | .error e => (s, .error e)
    | .ok op => s.mutate env projectID op
  | .duplicateJob hubID projectName jobID createdBy =>
    match Production.duplicateJob env.now hubID projectName jobID createdBy with
    | .error e => (s, .error e)
    | .ok op => s.mutate env projectID op
  | .deleteJob jobID =>
    match Production.deleteJob jobID with
    | .error e => (s, .error e)
    | .ok op => s.mutate env projectID op
  | .onJob jobID c =>
    match c.closure env.now with
    | .error e => (s, .error e)
    | .ok op => s.mutateJob env projectID jobID op
  | .read =>
    match s.project env projectID with
    | .error e => (s, .error e)
    | .ok (s, _) => (s, .ok none)
  | .reset => ({ s with file := none }, .ok none)
  | .deleteProject r =>
    ({ s with file := none, disk := if r.gone then none else s.disk }, removed r)

end State

/-- One event of a run of the store. -/
def State.Happens (projectID : String) (s : State) (e : Event) (s' : State) : Prop :=
  (s.exec e.env projectID e.op).1 = s'

end Production
