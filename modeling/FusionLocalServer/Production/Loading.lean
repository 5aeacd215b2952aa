import FusionLocalServer.Production.Project
import FusionLocalServer.Storage.Migrate

/-!
# Production data from a document

A document's jobs, steps and batches are decoded into lists of pointers, and a `null` in one of
them into a nil. The copies pass over nil steps, but over nothing else; loading goes through the
jobs, and the operations through what they look for. What a closure looks at once it has found
its step or batch has no pointers in it, and is left to the closures as they are.

How a document decodes into a file is a parameter, and so is `strings.EqualFold`.
-/

namespace Production

open Lib Lib.Json Lib.Nilable
open FusionLocalServer.Storage

namespace Loading

abbrev NilJob := Job List (Option StepVal) (Option BatchVal)
abbrev NilFile := ProjectFile List (Option NilJob)

def wholeJob (j : JobVal) : NilJob :=
  { toJobHeader := j.toJobHeader, steps := j.steps.map some, edges := j.edges
    batches := j.batches.map some }

/-- A file without a nil. -/
def whole (pf : FileVal) : NilFile :=
  { toFileHeader := pf.toFileHeader, jobs := pf.jobs.map fun j => some (wholeJob j) }

/-- `newRegistry` -/
def registry : Registry where
  target := fileVersion
  steps v := if v = 1 ∨ v = 2 then some fun raw => .ok raw else none

/-! ## Copies -/

def copyJob (j : NilJob) : Except Panic JobVal :=
  (each .ok j.batches).map fun batches =>
    { toJobHeader := j.toJobHeader, steps := j.steps.reduceOption, edges := j.edges, batches }

def cloneFile (pf : NilFile) : Except Panic FileVal :=
  (each copyJob pf.jobs).map fun jobs => { toFileHeader := pf.toFileHeader, jobs }

/-! ## A job with a nil -/

/-- The job with something in the place of every nil. -/
def fill (j : NilJob) : JobVal :=
  { toJobHeader := j.toJobHeader, steps := j.steps.map fun st => st.getD (newStep default)
    edges := j.edges, batches := j.batches.map fun b => b.getD (newBatch default []) }

section

variable (j : NilJob)

def findStep (stepID : String) : Except Panic (Option (Nat × StepVal)) :=
  search (fun st => st.id = stepID) j.steps

def findBatch (batchID : String) : Except Panic (Option (Nat × BatchVal)) :=
  search (fun b => b.id = batchID) j.batches

/-- The pointers a closure goes through, before it writes. -/
def look : JobCall → Except Panic Unit
  | .updateJob _ | .createStep _ | .deleteEdge _ => .ok ()
  | .updateStep stepID _ | .deleteStep stepID | .attachPlanDoc stepID _ _
  | .removePlanDoc stepID _ | .addResult stepID _ | .updateResult stepID _ _
  | .removeResult stepID _ | .addPlaceholder stepID _ | .updatePlaceholder stepID _ _
  | .removePlaceholder stepID _ => (findStep j stepID).map fun _ => ()
  | .addEdge fromStep _ toStep =>
    if fromStep = toStep then .ok ()
    else
      match findStep j fromStep with
      | .error p => .error p
      | .ok none => .ok ()
      | .ok (some _) => (findStep j toStep).map fun _ => ()
  | .createBatch _ _ =>
    -- the plan is frozen step by step
    if MaxBatchesPerJob ≤ j.batches.length then .ok () else (each .ok j.steps).map fun _ => ()
  | .updateBatch batchID _ | .deleteBatch batchID | .addFulfillment batchID _ _
  | .removeFulfillment batchID _ | .addBatchRef batchID _ | .removeBatchRef batchID _
  | .hideBatchStep batchID _ | .showBatchStep batchID _ => (findBatch j batchID).map fun _ => ()

def write : JobEdit → NilJob
  | .fields f => { j with toJobHeader := f j.toJobHeader }
  | .edges e => { j with edges := e.apply j.edges }
  | .addStep st => { j with steps := j.steps ++ [some (newStep st)] }
  | .removeStep i => { j with steps := j.steps.eraseIdx i }
  | .onStep i e => { j with steps := j.steps.modify i (Option.map fun st => e.apply st) }
  | .addBatch b => { j with batches := j.batches ++ [some (newBatch b j.steps.reduceOption)] }
  | .removeBatch i => { j with batches := j.batches.eraseIdx i }
  | .onBatch i e => { j with batches := j.batches.modify i (Option.map fun b => e.apply b) }

def writeAll (edits : List JobEdit) : NilJob := edits.foldl write j

/-- `jobInvolvesUser`, with `matchesRef` -/
def jobInvolvesUser (equalFold : String → String → Bool) (userID email : String) : Bool :=
  matchesRef j.createdBy || j.batches.any fun b => b.elim false fun b => matchesRef b.createdBy
where
  matchesRef (ref : UserRef) : Bool :=
    (ref.id ≠ "" && ref.id = userID) ||
      (ref.email ≠ "" && email ≠ "" && equalFold ref.email email)

end

/-! ## A file with a nil -/

def fillFile (pf : NilFile) : FileVal :=
  { toFileHeader := pf.toFileHeader
    jobs := pf.jobs.map fun j => (j.map fill).getD (newJob default) }

def findJob (pf : NilFile) (jobID : String) : Except Panic (Option (Nat × NilJob)) :=
  search (fun j => j.id = jobID) pf.jobs

/-- The pointers a closure on the file goes through, before it writes. -/
def lookFile (pf : NilFile) : Op → Except Panic Unit
  | .duplicateJob _ _ jobID _ =>
    if MaxJobsPerProject ≤ pf.jobs.length then .ok ()
    else (findJob pf jobID).map fun _ => ()
  | .deleteJob jobID => (findJob pf jobID).map fun _ => ()
  | _ => .ok ()

def writeFile (pf : NilFile) : FileEdit → Except Panic NilFile
  | .fields f => .ok { pf with toFileHeader := f pf.toFileHeader }
  | .addJob h => .ok { pf with jobs := pf.jobs ++ [some (wholeJob (newJob h))] }
  | .copyJob i f =>
    match pf.jobs[i]? with
    | none => .ok pf
    | some src => do
      let src ← deref src
      let dup ← copyJob src
      pure { pf with jobs := pf.jobs ++ [some (wholeJob (duplicate f dup))] }
  | .removeJob i => .ok { pf with jobs := pf.jobs.eraseIdx i }

def writeAllFile : List FileEdit → NilFile → Except Panic NilFile
  | [], pf => .ok pf
  | e :: edits, pf =>
    match writeFile pf e with
    | .error p => .error p
    | .ok pf => writeAllFile edits pf

/-- The loop of `loadFile` over the jobs. -/
def repair (env : Env) (pf : NilFile) : Except Panic NilFile :=
  (each (fun j : NilJob => .ok { j with toJobHeader := repairJob j.toJobHeader }) pf.jobs).map
    fun jobs => { toFileHeader := repairFile env pf.toFileHeader, jobs := jobs.map some }

/-! ## The store -/

/-- A file as it was found, or as it was saved. -/
inductive Content where
  | found (data : List UInt8)
  | saved (pf : NilFile)

structure State where
  file : Option NilFile := none
  disk : Option Content

/-- What a call meets with. -/
structure LoadEnv extends Env where
  copyFails : Bool := false
  renameFails : Bool := false

inductive Request where
  | op (o : Op)
  | listJobs
  | getJob (jobID : String)
  | getBatch (jobID batchID : String)
  | mine (userID email : String)
  | listForProjects (projectIDs : List String)

inductive Reply where
  | done
  | jobs (js : List JobVal)
  | job (j : JobVal)
  | batch (b : BatchVal)

section

variable (number : List Char → Option (List Char)) (decode : Json → Option NilFile)
  (equalFold : String → String → Bool) (projectID : String)

def Content.read (copyFails : Bool) : Content → Except Fault NilFile
  | .found data => registry.decodeFile number decode copyFails data
  | .saved pf => .ok pf

/-- What a listing makes of a file, which it reads without a migration. -/
def Content.direct : Content → Option NilFile
  | .found data =>
    ((parse (decodeUtf8 data)).bind decode).filter fun pf => pf.version ≤ fileVersion
  | .saved pf => some pf

namespace State

variable (s : State) (env : LoadEnv)

/-- `project` with `loadFile` -/
def project : Except Panic (State × Except Err NilFile) :=
  match s.file with
  | some pf => .ok (s, .ok pf)
  | none =>
    let fresh := whole (freshFile env.toEnv projectID)
    match s.disk with
    | none => .ok ({ s with file := some fresh }, .ok fresh)
    | some content =>
      if env.readFails then .ok (s, .error ⟨.io, "reading %s", []⟩)
      else
        match content.read number decode env.copyFails with
        | .error (.panic p) => .error p
        | .error .futureVersion =>
          .ok (s, .error ⟨.io, "production: data written by a newer version", []⟩)
        | .error .failed =>
          .ok ({ file := some fresh, disk := if env.renameFails then s.disk else none }, .ok fresh)
        | .ok pf =>
          match repair env.toEnv pf with
          | .error p => .error p
          | .ok pf => .ok ({ s with file := some pf }, .ok pf)

def saveErr : Err := ⟨.io, "save failed", []⟩

/-- `mutate` on the loaded file. -/
def mutate (pf : NilFile) (o : Op) (op : FileOp) : Except Panic (State × Except Err Reply) := do
  let prev ← cloneFile pf
  lookFile pf o
  match op (fillFile pf) with
  | .error e => pure ({ s with file := some (whole prev) }, .error e)
  | .ok edits =>
    let new ← writeAllFile edits pf
    if env.dirFails || env.saveFails then
      pure ({ s with file := some (whole prev) }, .error saveErr)
    else
      let new : NilFile := { new with toFileHeader := touchFile env.toEnv new.toFileHeader }
      pure ({ file := some new, disk := some (.saved new) }, .ok .done)

/-- `mutateJob` on the loaded file. -/
def mutateJob (pf : NilFile) (jobID : String) (c : JobCall) (op : JobOp) :
    Except Panic (State × Except Err Reply) := do
  match ← findJob pf jobID with
  | none => pure (s, .error (.notFound "job %q" [jobID]))
  | some (i, j) =>
    let prev ← copyJob j
    let restored : NilFile := { pf with jobs := pf.jobs.set i (some (wholeJob prev)) }
    look j c
    match op (fill j) with
    | .error e => pure ({ s with file := some restored }, .error e)
    | .ok edits =>
      let j' := writeAll j (edits ++ [touchJob env.now])
      let snapshot ← copyJob j'
      let header := touchFile env.toEnv pf.toFileHeader
      if env.dirFails || env.saveFails then
        pure ({ s with file := some { restored with toFileHeader := header } }, .error saveErr)
      else
        let new : NilFile := { toFileHeader := header, jobs := pf.jobs.set i (some j') }
        pure ({ file := some new, disk := some (.saved new) }, .ok (.job snapshot))

/-- A call on a file that is loaded. -/
def onFile (pf : NilFile) : Request → Except Panic (State × Except Err Reply)
  | .listJobs => (each copyJob pf.jobs).map fun js => (s, .ok (.jobs js))
  | .getJob jobID => do
    match ← findJob pf jobID with
    | none => pure (s, .error (.notFound "job %q" [jobID]))
    | some (_, j) =>
      let j ← copyJob j
      pure (s, .ok (.job j))
  | .getBatch jobID batchID => do
    match ← findJob pf jobID with
    | none => pure (s, .error (.notFound "job %q" [jobID]))
    | some (_, j) =>
      match ← findBatch j batchID with
      | none => pure (s, .error (.notFound "batch %q" [batchID]))
      | some (_, b) => pure (s, .ok (.batch b))
  | .op (.createJob hubID projectName d createdBy) =>
    match Production.createJob env.now hubID projectName d createdBy with
    | .error e => .ok (s, .error e)
    | .ok op => s.mutate env pf (.createJob hubID projectName d createdBy) op
  | .op (.duplicateJob hubID projectName jobID createdBy) =>
    match Production.duplicateJob env.now hubID projectName jobID createdBy with
    | .error e => .ok (s, .error e)
    | .ok op => s.mutate env pf (.duplicateJob hubID projectName jobID createdBy) op
  | .op (.deleteJob jobID) =>
    match Production.deleteJob jobID with
    | .error e => .ok (s, .error e)
    | .ok op => s.mutate env pf (.deleteJob jobID) op
  | .op (.onJob jobID c) =>
    match c.closure env.now with
    | .error e => .ok (s, .error e)
    | .ok op => s.mutateJob env pf jobID c op
  | _ => .ok (s, .ok .done)

/-- What fails ahead of loading the project. -/
def refused : Request → Option Err
  | .op (.createJob hubID projectName d createdBy) =>
    failure (Production.createJob env.now hubID projectName d createdBy)
  | .op (.onJob _ c) => failure (c.closure env.now)
  | _ => none
where
  failure {α : Type} : Except Err α → Option Err
    | .error e => some e
    | .ok _ => none

/-- The jobs a listing has of the file on disk, nil ones passed over. -/
def listed (selects : NilFile → NilJob → Bool) : Except Panic (State × Except Err Reply) :=
  match if env.readFails then none else s.disk.bind (Content.direct decode) with
  | none => .ok (s, .ok (.jobs []))
  | some pf =>
    (each copyJob (pf.jobs.filter fun j => j.elim false (selects pf))).map
      fun js => (s, .ok (.jobs js))

def call (request : Request) : Except Panic (State × Except Err Reply) :=
  match request with
  | .op .reset => .ok ({ s with file := none }, .ok .done)
  | .op (.deleteProject r) =>
    .ok ({ file := none, disk := if r.gone then none else s.disk }, (removed r).map fun _ => .done)
  | .mine userID email => s.listed decode env fun _ j => jobInvolvesUser j equalFold userID email
  | .listForProjects projectIDs =>
    s.listed decode env fun pf _ => pf.projectId ≠ "" ∧ pf.projectId ∈ projectIDs
  | request =>
    match refused env request with
    | some e => .ok (s, .error e)
    | none =>
      match s.project number decode projectID env with
      | .error p => .error p
      | .ok (s, .error e) => .ok (s, .error e)
      | .ok (s, .ok pf) => s.onFile env pf request

end State

/-- One call on a project of the store. -/
def handle (s : State) (event : LoadEnv × Request) : Except Panic State :=
  (s.call number decode equalFold projectID event.1 event.2).map (·.1)

end

/-! ## What has no nil -/

structure SoundJob (j : NilJob) : Prop where
  steps : Whole j.steps
  batches : Whole j.batches

structure SoundFile (pf : NilFile) : Prop where
  jobs : Whole pf.jobs
  each : ∀ j, some j ∈ pf.jobs → SoundJob j

theorem soundJob_whole (j : JobVal) : SoundJob (wholeJob j) :=
  ⟨whole_map id j.steps, whole_map id j.batches⟩

theorem soundFile_whole (pf : FileVal) : SoundFile (whole pf) where
  jobs := whole_map wholeJob pf.jobs
  each j hj := by
    obtain ⟨v, -, hv⟩ := List.mem_map.mp hj
    cases hv
    exact soundJob_whole v

section

variable {j : NilJob} {pf : NilFile}

theorem SoundJob.write (h : SoundJob j) (e : JobEdit) : SoundJob (write j e) := by
  obtain ⟨hsteps, hbatches⟩ := h
  cases e with
  | fields f => exact ⟨hsteps, hbatches⟩
  | edges e => exact ⟨hsteps, hbatches⟩
  | addStep st => exact ⟨hsteps.append (whole_map id [newStep st]), hbatches⟩
  | removeStep i => exact ⟨hsteps.eraseIdx i, hbatches⟩
  | onStep i e => exact ⟨hsteps.modify i _, hbatches⟩
  | addBatch b => exact ⟨hsteps, hbatches.append (whole_map id [_])⟩
  | removeBatch i => exact ⟨hsteps, hbatches.eraseIdx i⟩
  | onBatch i e => exact ⟨hsteps, hbatches.modify i _⟩

theorem SoundJob.writeAll (h : SoundJob j) (edits : List JobEdit) : SoundJob (writeAll j edits) := by
  induction edits generalizing j with
  | nil => exact h
  | cons e edits ih => exact ih (h.write e)

theorem copyJob_ends (h : Whole j.batches) : Panic.Ends (copyJob j) fun _ => True :=
  (each_ends (P := fun _ => True) h fun b _ => ⟨b, rfl, trivial⟩).map fun _ _ => trivial

theorem cloneFile_ends (h : SoundFile pf) : Panic.Ends (cloneFile pf) fun _ => True :=
  (each_ends h.jobs fun j hj => copyJob_ends (h.each j hj).batches).map fun _ _ => trivial

theorem findJob_ends (h : SoundFile pf) (jobID : String) :
    Panic.Ends (findJob pf jobID) fun found => ∀ i j, found = some (i, j) → SoundJob j :=
  (search_ends _ h.jobs).mono fun _ hfound i j hj => h.each j (hfound i j hj)

theorem findStep_ends (h : SoundJob j) (stepID : String) :
    Panic.Ends (findStep j stepID) fun _ => True :=
  (search_ends _ h.steps).mono fun _ _ => trivial

theorem findBatch_ends (h : SoundJob j) (batchID : String) :
    Panic.Ends (findBatch j batchID) fun _ => True :=
  (search_ends _ h.batches).mono fun _ _ => trivial

theorem look_ends (h : SoundJob j) (c : JobCall) : Panic.Ends (look j c) fun _ => True := by
  have hstep : ∀ stepID, Panic.Ends ((findStep j stepID).map fun _ => ()) fun _ => True :=
    fun stepID => (findStep_ends h stepID).map fun _ _ => trivial
  have hbatch : ∀ batchID, Panic.Ends ((findBatch j batchID).map fun _ => ()) fun _ => True :=
    fun batchID => (findBatch_ends h batchID).map fun _ _ => trivial
  have hnone : Panic.Ends (.ok ()) fun _ => True := ⟨(), rfl, trivial⟩
  cases c with
  | updateJob | createStep | deleteEdge => exact hnone
  | updateStep | deleteStep | attachPlanDoc | removePlanDoc | addResult | updateResult
  | removeResult | addPlaceholder | updatePlaceholder | removePlaceholder => exact hstep _
  | addEdge fromStep _ toStep =>
    rw [look]
    split
    · exact hnone
    · obtain ⟨found, hfound, -⟩ := findStep_ends h fromStep
      rw [hfound]
      cases found with
      | none => exact hnone
      | some st => exact hstep toStep
  | createBatch =>
    rw [look]
    split
    · exact hnone
    · exact (each_ends (P := fun _ => True) h.steps fun st _ => ⟨st, rfl, trivial⟩).map
        fun _ _ => trivial
  | updateBatch | deleteBatch | addFulfillment | removeFulfillment | addBatchRef
  | removeBatchRef | hideBatchStep | showBatchStep => exact hbatch _

theorem lookFile_ends (h : SoundFile pf) (o : Op) : Panic.Ends (lookFile pf o) fun _ => True := by
  have hjob : ∀ jobID, Panic.Ends ((findJob pf jobID).map fun _ => ()) fun _ => True :=
    fun jobID => (findJob_ends h jobID).map fun _ _ => trivial
  have hnone : Panic.Ends (.ok ()) fun _ => True := ⟨(), rfl, trivial⟩
  unfold lookFile
  split
  · split
    · exact hnone
    · exact hjob _
  · exact hjob _
  · exact hnone

theorem writeFile_ends (h : SoundFile pf) (e : FileEdit) :
    Panic.Ends (writeFile pf e) SoundFile := by
  have hadd : ∀ j : JobVal, SoundFile { pf with jobs := pf.jobs ++ [some (wholeJob j)] } := by
    refine fun j => ⟨h.jobs.append (whole_map wholeJob [j]), fun j' hj' => ?_⟩
    rcases List.mem_append.mp hj' with hj' | hj'
    · exact h.each j' hj'
    · cases List.mem_singleton.mp hj'
      exact soundJob_whole j
  cases e with
  | fields f => exact ⟨_, rfl, h.jobs, h.each⟩
  | addJob header => exact ⟨_, rfl, hadd _⟩
  | copyJob i f =>
    unfold writeFile
    dsimp only
    split
    · exact ⟨_, rfl, h⟩
    · next src hsrc =>
      have hmem := List.mem_of_getElem? hsrc
      cases src with
      | none => exact absurd hmem h.jobs
      | some src =>
        exact (copyJob_ends (h.each src hmem).batches).bind fun dup _ => ⟨_, rfl, hadd _⟩
  | removeJob i =>
    exact ⟨_, rfl, h.jobs.eraseIdx i, fun j hj => h.each j (List.mem_of_mem_eraseIdx hj)⟩

theorem writeAllFile_ends (edits : List FileEdit) :
    ∀ {pf}, SoundFile pf → Panic.Ends (writeAllFile edits pf) SoundFile := by
  induction edits with
  | nil => exact fun {pf} h => ⟨pf, rfl, h⟩
  | cons e edits ih =>
    intro pf h
    obtain ⟨pf', hpf', h'⟩ := writeFile_ends h e
    rw [writeAllFile, hpf']
    exact ih h'

theorem repair_ends (h : SoundFile pf) (env : Env) : Panic.Ends (repair env pf) SoundFile := by
  refine (each_ends (P := SoundJob) h.jobs fun j hj => ⟨_, rfl, ?_⟩).map fun jobs hjobs =>
    ⟨whole_map id jobs, fun j hj => ?_⟩
  · exact ⟨(h.each j hj).steps, (h.each j hj).batches⟩
  · obtain ⟨j', hj', heq⟩ := List.mem_map.mp hj
    cases heq
    exact hjobs j hj'

end

/-! ## Which documents are loaded -/

section

variable {number : List Char → Option (List Char)} {decode : Json → Option NilFile}
  {equalFold : String → String → Bool} {projectID : String} {data : List UInt8} {s : State}

/-- A job that some listing comes to. -/
def Listed (equalFold : String → String → Bool) (pf : NilFile) (j : NilJob) : Prop :=
  pf.projectId ≠ "" ∨ ∃ userID email, jobInvolvesUser j equalFold userID email = true

/-- What the document decodes into after its migration has no nil, and as it stands none in the
batches of a job that is listed. -/
structure Loadable (number : List Char → Option (List Char)) (decode : Json → Option NilFile)
    (equalFold : String → String → Bool) (data : List UInt8) : Prop where
  loaded : ∀ pf, registry.decodeFile number decode false data = .ok pf → SoundFile pf
  listed : ∀ pf, (Content.found data).direct decode = some pf → ∀ j, some j ∈ pf.jobs →
    Listed equalFold pf j → Whole j.batches

/-- The file in memory, and what was saved, has no nil; else the disk is as it was found. -/
structure Sound (data : List UInt8) (s : State) : Prop where
  file : ∀ pf, s.file = some pf → SoundFile pf
  disk : ∀ content, s.disk = some content →
    content = .found data ∨ ∃ pf, content = .saved pf ∧ SoundFile pf

theorem registry_keeps : ∀ v step, registry.steps v = some step → step.Keeps := by
  intro v step hstep
  simp only [registry] at hstep
  split at hstep
  · cases hstep
    exact keeps_id
  · cases hstep

theorem Sound.loads (h : Sound data s) {pf : NilFile} (hpf : SoundFile pf) :
    Sound data { s with file := some pf } :=
  ⟨fun _ hfile => by cases hfile; exact hpf, h.disk⟩

theorem Sound.saves {pf : NilFile} (hpf : SoundFile pf) :
    Sound data { file := some pf, disk := some (.saved pf) } :=
  ⟨fun _ hfile => by cases hfile; exact hpf, fun _ hc => by cases hc; exact .inr ⟨pf, rfl, hpf⟩⟩

theorem Sound.project (hdata : Loadable number decode equalFold data) (hs : Sound data s)
    (env : LoadEnv) : Panic.Ends (s.project number decode projectID env) fun result =>
      Sound data result.1 ∧ ∀ pf, result.2 = .ok pf → SoundFile pf := by
  have hfresh := soundFile_whole (freshFile env.toEnv projectID)
  unfold State.project
  cases hfile : s.file with
  | some pf => exact ⟨_, rfl, hs, fun pf' hpf => by cases hpf; exact hs.file pf hfile⟩
  | none =>
    cases hdisk : s.disk with
    | none =>
      refine ⟨_, rfl, ⟨fun pf hpf => ?_, fun c hc => (nomatch hc)⟩, fun pf hpf => ?_⟩
      all_goals
        cases hpf
        exact hfresh
    | some content =>
      dsimp only
      split
      · exact ⟨_, rfl, hs, fun _ hpf => (nomatch hpf)⟩
      have hno : ∀ p, content.read number decode env.copyFails ≠ .error (.panic p) := by
        rcases hs.disk content hdisk with rfl | ⟨pf, rfl, -⟩
        · exact Registry.decodeFile_no_panic registry_keeps env.copyFails fun _ => rfl
        · exact fun _ h => (nomatch h)
      have hsound : ∀ pf, content.read number decode env.copyFails = .ok pf → SoundFile pf := by
        intro pf hpf
        rcases hs.disk content hdisk with rfl | ⟨pf', rfl, hpf'⟩
        · exact hdata.loaded pf (Registry.decodeFile_copied hpf)
        · cases hpf
          exact hpf'
      split
      · next p hp => exact absurd hp (hno p)
      · exact ⟨_, rfl, hs, fun _ hpf => (nomatch hpf)⟩
      · refine ⟨_, rfl, ⟨fun pf hpf => ?_, fun c hc => ?_⟩, fun pf hpf => ?_⟩
        · cases hpf
          exact hfresh
        · dsimp only at hc
          split at hc
          · exact hs.disk c (hdisk.trans hc)
          · cases hc
        · cases hpf
          exact hfresh
      · next pf hpf =>
        obtain ⟨pf', hrepair, hpf'⟩ := repair_ends (hsound pf hpf) env.toEnv
        rw [hrepair]
        refine ⟨_, rfl, ⟨fun pf'' hpf'' => ?_, fun c hc => hs.disk c (hdisk.trans hc)⟩,
          fun pf'' hpf'' => ?_⟩
        all_goals
          cases hpf''
          exact hpf'

theorem Sound.mutate (hs : Sound data s) (env : LoadEnv) {pf : NilFile} (hpf : SoundFile pf)
    (o : Op) (op : FileOp) : Panic.Ends (s.mutate env pf o op) fun result => Sound data result.1 := by
  refine (cloneFile_ends hpf).bind fun prev _ => (lookFile_ends hpf o).bind fun _ _ => ?_
  have hback : Sound data { s with file := some (whole prev) } := hs.loads (soundFile_whole prev)
  split
  · exact ⟨_, rfl, hback⟩
  · next edits _ =>
    refine (writeAllFile_ends edits hpf).bind fun new hnew => ?_
    split
    · exact ⟨_, rfl, hback⟩
    · exact ⟨_, rfl, Sound.saves ⟨hnew.jobs, hnew.each⟩⟩

/-- One job of a file goes to another. -/
theorem SoundFile.set {pf : NilFile} (hpf : SoundFile pf) {j : NilJob} (hj : SoundJob j) (i : Nat)
    (header : FileHeader) :
    SoundFile { toFileHeader := header, jobs := pf.jobs.set i (some j) } := by
  refine ⟨hpf.jobs.set i j, fun j' hj' => ?_⟩
  rcases List.mem_or_eq_of_mem_set hj' with hold | hnew
  · exact hpf.each j' hold
  · cases hnew
    exact hj

theorem Sound.mutateJob (hs : Sound data s) (env : LoadEnv) {pf : NilFile} (hpf : SoundFile pf)
    (jobID : String) (c : JobCall) (op : JobOp) :
    Panic.Ends (s.mutateJob env pf jobID c op) fun result => Sound data result.1 := by
  refine (findJob_ends hpf jobID).bind fun found hfound => ?_
  cases found with
  | none => exact ⟨_, rfl, hs⟩
  | some found =>
    obtain ⟨i, j⟩ := found
    have hj : SoundJob j := hfound i j rfl
    refine (copyJob_ends hj.batches).bind fun prev _ => (look_ends hj c).bind fun _ _ => ?_
    have hback := fun header => hs.loads (hpf.set (soundJob_whole prev) i header)
    split
    · exact ⟨_, rfl, hback pf.toFileHeader⟩
    · next edits _ =>
      have hj' := hj.writeAll (edits ++ [touchJob env.now])
      refine (copyJob_ends hj'.batches).bind fun snapshot _ => ?_
      dsimp only
      split
      · exact ⟨_, rfl, hback _⟩
      · exact ⟨_, rfl, Sound.saves (hpf.set hj' i _)⟩

theorem Sound.onFile (hs : Sound data s) (env : LoadEnv) {pf : NilFile} (hpf : SoundFile pf)
    (request : Request) :
    Panic.Ends (s.onFile env pf request) fun result => Sound data result.1 := by
  have hstay : ∀ r : Except Err Reply, Panic.Ends (.ok (s, r)) fun result => Sound data result.1 :=
    fun r => ⟨_, rfl, hs⟩
  unfold State.onFile
  split
  · exact (each_ends hpf.jobs fun j hj => copyJob_ends (hpf.each j hj).batches).map fun _ _ => hs
  · refine (findJob_ends hpf _).bind fun found hfound => ?_
    cases found with
    | none => exact hstay _
    | some found => exact (copyJob_ends (hfound _ _ rfl).batches).bind fun _ _ => hstay _
  · refine (findJob_ends hpf _).bind fun found hfound => ?_
    cases found with
    | none => exact hstay _
    | some found =>
      refine (findBatch_ends (hfound _ _ rfl) _).bind fun found _ => ?_
      cases found <;> exact hstay _
  · split
    · exact hstay _
    · exact hs.mutate env hpf _ _
  · split
    · exact hstay _
    · exact hs.mutate env hpf _ _
  · split
    · exact hstay _
    · exact hs.mutate env hpf _ _
  · split
    · exact hstay _
    · exact hs.mutateJob env hpf _ _ _
  · exact hstay _

/-- A listing of jobs that it has to do with only where they are listed. -/
theorem Sound.listed (hdata : Loadable number decode equalFold data) (hs : Sound data s)
    (env : LoadEnv) {selects : NilFile → NilJob → Bool}
    (hselects : ∀ pf j, selects pf j = true → Listed equalFold pf j) :
    Panic.Ends (s.listed decode env selects) fun result => Sound data result.1 := by
  unfold State.listed
  split
  · exact ⟨_, rfl, hs⟩
  · next pf hpf =>
    have hread : s.disk.bind (Content.direct decode) = some pf := by
      split at hpf
      · cases hpf
      · exact hpf
    obtain ⟨content, hcontent, hdirect⟩ := Option.bind_eq_some_iff.mp hread
    refine (each_ends (P := fun _ => True) (fun hnil => ?_) fun j hj => ?_).map fun _ _ => hs
    · simp at hnil
    · obtain ⟨hmem, hselected⟩ := List.mem_filter.mp hj
      refine copyJob_ends ?_
      rcases hs.disk content hcontent with rfl | ⟨pf', rfl, hpf'⟩
      · exact hdata.listed pf hdirect j hmem (hselects pf j hselected)
      · cases hdirect
        exact (hpf'.each j hmem).batches

theorem Sound.call (hdata : Loadable number decode equalFold data) (hs : Sound data s)
    (env : LoadEnv) (request : Request) :
    Panic.Ends (s.call number decode equalFold projectID env request) fun result =>
      Sound data result.1 := by
  unfold State.call
  split
  · exact ⟨_, rfl, fun _ hpf => (nomatch hpf), hs.disk⟩
  · refine ⟨_, rfl, fun _ hpf => (nomatch hpf), fun c hc => ?_⟩
    dsimp only at hc
    split at hc
    · cases hc
    · exact hs.disk c hc
  · exact hs.listed hdata env fun pf j hj => .inr ⟨_, _, hj⟩
  · exact hs.listed hdata env fun pf j hj => .inl (of_decide_eq_true hj).1
  · split
    · exact ⟨_, rfl, hs⟩
    · obtain ⟨result, hproject, hs', hpf⟩ :
          Panic.Ends (s.project number decode projectID env) _ := hs.project hdata env
      rw [hproject]
      obtain ⟨s', loaded⟩ := result
      cases loaded with
      | error e => exact ⟨_, rfl, hs'⟩
      | ok pf => exact hs'.onFile env (hpf pf rfl) _

/-! ## What has a nil ends in a panic -/

theorem whole_of_copyJob {j : NilJob} {v : JobVal} (h : copyJob j = .ok v) : Whole j.batches := by
  unfold copyJob at h
  cases hbatches : each Except.ok j.batches with
  | error p => simp [hbatches, Except.map] at h
  | ok batches => exact (of_each hbatches).1

/-- A list with a job that has a nil batch is not copied. -/
theorem each_copyJob_panics {jobs : List (Option NilJob)} {j : NilJob} (hj : some j ∈ jobs)
    (hnil : ¬ Whole j.batches) : ∃ p, each copyJob jobs = .error p := by
  cases heach : each copyJob jobs with
  | error p => exact ⟨p, rfl⟩
  | ok vs =>
    obtain ⟨v, -, hv⟩ := (of_each heach).2 j hj
    exact absurd (whole_of_copyJob hv) hnil

/-- The step of an id that no step of the job has. -/
theorem exists_fresh_step (j : NilJob) : ∃ stepID : String, ∀ st, some st ∈ j.steps → st.id ≠ stepID := by
  let lengths := j.steps.map fun st => st.elim 0 fun st => st.id.toList.length
  refine ⟨String.ofList (List.replicate (lengths.sum + 1) 'x'), fun st hst heq => ?_⟩
  have hlength : st.id.toList.length = lengths.sum + 1 := by simp [heq]
  have hmem : st.id.toList.length ∈ lengths := List.mem_map.mpr ⟨some st, hst, rfl⟩
  have := List.le_sum_of_mem hmem
  omega

/-- A search for a step comes to the nil, where the job is the first of its id. -/
theorem updateStep_panics {pf : NilFile} {before after : List (Option NilJob)} {j : NilJob}
    (hfile : s.file = some pf) (hjobs : pf.jobs = before ++ some j :: after)
    (hwhole : Whole pf.jobs) (hbatches : Whole j.batches) (hnil : ¬ Whole j.steps)
    (hfirst : ∀ b, some b ∈ before → decide (b.id = j.id) = false) :
    ∃ event p, handle number decode equalFold projectID s event = .error p := by
  obtain ⟨stepID, hfresh⟩ := exists_fresh_step j
  refine ⟨({ now := 0 }, .op (.onJob j.id (.updateStep stepID {}))), .nilDereference, ?_⟩
  have hbefore : Whole before := fun hmem =>
    hwhole (hjobs ▸ List.mem_append_left _ hmem)
  have hfind : findJob pf j.id = .ok (some (before.length, j)) := by
    unfold findJob
    rw [hjobs]
    exact search_append hbefore hfirst (decide_eq_true rfl)
  obtain ⟨prev, hprev, -⟩ := copyJob_ends hbatches
  have hlook : look j (.updateStep stepID {}) = .error .nilDereference := by
    simp only [look, findStep]
    rw [search_panics (not_not.mp hnil) fun st hst => decide_eq_false (hfresh st hst)]
    rfl
  have hclosure : ∃ op, (JobCall.updateStep stepID {}).closure 0 = .ok op := ⟨_, rfl⟩
  obtain ⟨op, hop⟩ := hclosure
  simp [handle, State.call, State.refused, State.refused.failure, hop, State.project, hfile,
    State.onFile, State.mutateJob, hfind, hprev, hlook, bind, Except.bind, Except.map]

/-- `DeleteJob` takes out the first job of the id. -/
theorem deleteJob_first {pf : NilFile} {before after : List (Option NilJob)} {b : NilJob}
    (hfile : s.file = some pf) (hjobs : pf.jobs = before ++ some b :: after)
    (hwhole : Whole pf.jobs) (hbatches : ∀ j, some j ∈ pf.jobs → Whole j.batches)
    (hfirst : ∀ c, some c ∈ before → decide (c.id = b.id) = false) :
    ∃ event s' pf', handle number decode equalFold projectID s event = .ok s' ∧
      s'.file = some pf' ∧ pf'.jobs = before ++ after := by
  have hbefore : Whole before := fun hmem => hwhole (hjobs ▸ List.mem_append_left _ hmem)
  have hfind : findJob pf b.id = .ok (some (before.length, b)) := by
    unfold findJob
    rw [hjobs]
    exact search_append hbefore hfirst (decide_eq_true rfl)
  obtain ⟨prev, hprev, -⟩ : Panic.Ends (cloneFile pf) fun _ => True :=
    (each_ends hwhole fun j hj => copyJob_ends (hbatches j hj)).map fun _ _ => trivial
  -- the closure finds it at the same place
  have hindex : (fillFile pf).jobs.findIdx? (fun j => j.id = b.id) = some before.length := by
    have hnone : (before.map fun j => (j.map fill).getD (newJob default)).findIdx?
        (fun j => decide (j.id = b.id)) = none := by
      refine List.findIdx?_eq_none_iff.mpr fun v hv => ?_
      obtain ⟨p, hp, rfl⟩ := List.mem_map.mp hv
      cases p with
      | none => exact absurd hp hbefore
      | some c => exact hfirst c hp
    simp only [fillFile, hjobs, List.map_append, List.map_cons, List.findIdx?_append, hnone,
      List.findIdx?_cons, Option.map_some, Option.getD_some]
    simp [fill]
  have hop : ∃ op, Production.deleteJob b.id = .ok op ∧
      op (fillFile pf) = .ok [.removeJob before.length] := by
    refine ⟨_, rfl, ?_⟩
    simp only [hindex]
  obtain ⟨op, hdelete, hedits⟩ := hop
  have herase : pf.jobs.eraseIdx before.length = before ++ after := by
    rw [hjobs, List.eraseIdx_append_of_length_le (Nat.le_refl _), Nat.sub_self,
      List.eraseIdx_cons_zero]
  let deleted : NilFile :=
    { toFileHeader := touchFile { now := 0 } pf.toFileHeader, jobs := pf.jobs.eraseIdx before.length }
  refine ⟨({ now := 0 }, .op (.deleteJob b.id)), { file := some deleted, disk := some (.saved deleted) },
    deleted, ?_, rfl, herase⟩
  simp [handle, State.call, State.refused, State.project, hfile, State.onFile, hdelete,
    State.mutate, hprev, lookFile, hfind, hedits, writeAllFile, writeFile, bind, Except.bind,
    Except.map, pure, Except.pure, deleted]

/-- A nil step is come to, once the jobs ahead with the id of its own are deleted. -/
theorem nil_step_panics {j : NilJob} {after : List (Option NilJob)} (hnil : ¬ Whole j.steps)
    (n : Nat) : ∀ {s : State} {pf : NilFile} {before : List (Option NilJob)},
      before.countP (fun x => x.any fun b => b.id = j.id) = n → s.file = some pf →
      pf.jobs = before ++ some j :: after → Whole pf.jobs →
      (∀ b, some b ∈ pf.jobs → Whole b.batches) →
      ∃ events, ¬ ∃ s', Panic.run (handle number decode equalFold projectID) s events = .ok s' := by
  induction n with
  | zero =>
    intro s pf before hcount hfile hjobs hwhole hbatches
    have hfirst : ∀ b, some b ∈ before → decide (b.id = j.id) = false := fun b hb => by
      simpa using List.countP_eq_zero.mp hcount (some b) hb
    have hj : Whole j.batches :=
      hbatches j (hjobs ▸ List.mem_append_right _ List.mem_cons_self)
    obtain ⟨event, p, hpanic⟩ :
        ∃ event p, handle number decode equalFold projectID s event = .error p :=
      updateStep_panics hfile hjobs hwhole hj hnil hfirst
    exact ⟨[event], Panic.run_panics hpanic⟩
  | succ n ih =>
    intro s pf before hcount hfile hjobs hwhole hbatches
    -- the first of the jobs ahead that has the id
    have hsome : ∃ x ∈ before, (x.any fun b => decide (b.id = j.id)) = true :=
      List.countP_pos_iff.mp (hcount ▸ Nat.succ_pos n)
    obtain ⟨x, hx⟩ := Option.isSome_iff_exists.mp (List.find?_isSome.mpr hsome)
    obtain ⟨hmatch, front, back, rfl, hfront⟩ := List.find?_eq_some_iff_append.mp hx
    cases x with
    | none => cases hmatch
    | some b =>
      have hb : b.id = j.id := of_decide_eq_true hmatch
      have hlist : pf.jobs = front ++ some b :: (back ++ some j :: after) := by simp [hjobs]
      have hfirst : ∀ c, some c ∈ front → decide (c.id = b.id) = false := fun c hc => by
        simpa [hb] using hfront (some c) hc
      obtain ⟨event, s', pf', hstep, hfile', hjobs'⟩ :
          ∃ event s' pf', handle number decode equalFold projectID s event = .ok s' ∧
            s'.file = some pf' ∧ pf'.jobs = front ++ (back ++ some j :: after) :=
        deleteJob_first hfile hlist hwhole hbatches hfirst
      have hsub : ∀ y ∈ pf'.jobs, y ∈ pf.jobs := by
        rw [hjobs', hlist]
        intro y hy
        exact (List.mem_append.mp hy).elim (List.mem_append_left _) fun hy =>
          List.mem_append_right _ (List.mem_cons_of_mem _ hy)
      have hcount' : (front ++ back).countP (fun x => x.any fun b => b.id = j.id) = n := by
        simp only [List.countP_append, List.countP_cons, hmatch, if_true] at hcount ⊢
        omega
      obtain ⟨events, hevents⟩ := ih hcount' hfile' (hjobs'.trans (List.append_assoc _ _ _).symm)
        (fun hmem => hwhole (hsub none hmem)) fun c hc => hbatches c (hsub _ hc)
      exact ⟨event :: events, by rw [Panic.run, hstep]; exact hevents⟩

/-- A document that loads with a nil has a run into a panic. -/
theorem loaded_panics {pf : NilFile} (hpf : registry.decodeFile number decode false data = .ok pf)
    (hnil : ¬ SoundFile pf) : ∃ events, ¬ ∃ s', Panic.run (handle number decode equalFold projectID)
      { disk := some (.found data) } events = .ok s' := by
  by_cases hjobs : Whole pf.jobs
  swap
  · -- the repair goes through the jobs
    have hrepair : ∃ p, repair { now := 0 } pf = .error p := by
      unfold repair
      cases heach : each (fun j : NilJob => Except.ok
          { j with toJobHeader := repairJob j.toJobHeader }) pf.jobs with
      | error p => exact ⟨p, rfl⟩
      | ok js => exact absurd (of_each heach).1 hjobs
    obtain ⟨p, hp⟩ := hrepair
    have hlist : handle number decode equalFold projectID { disk := some (.found data) }
        ({ now := 0 }, .listJobs) = .error p := by
      simp [handle, State.call, State.refused, State.project, Content.read, hpf, hp, Except.map]
    exact ⟨_, Panic.run_panics hlist⟩
  obtain ⟨js, hjs, hmap⟩ := each_total
    (fun j : NilJob => { j with toJobHeader := repairJob j.toJobHeader }) hjobs
  let repaired : NilFile := { toFileHeader := repairFile { now := 0 } pf.toFileHeader, jobs := js.map some }
  have hrepair : repair { now := 0 } pf = .ok repaired := by
    simp [repair, hjs, Except.map, repaired]
  by_cases hbatches : ∀ j, some j ∈ repaired.jobs → Whole j.batches
  swap
  · -- the jobs are listed
    push Not at hbatches
    obtain ⟨j, hj, hjnil⟩ := hbatches
    obtain ⟨p, hp⟩ := each_copyJob_panics hj hjnil
    have hlist : handle number decode equalFold projectID { disk := some (.found data) }
        ({ now := 0 }, .listJobs) = .error p := by
      simp [handle, State.call, State.refused, State.project, Content.read, hpf, hrepair,
        State.onFile, hp, Except.map]
    exact ⟨_, Panic.run_panics hlist⟩
  -- some job has a nil step
  obtain ⟨j, hj, hsteps⟩ : ∃ j, some j ∈ repaired.jobs ∧ ¬ Whole j.steps := by
    by_contra hnone
    push Not at hnone
    refine hnil ⟨hjobs, fun j hj => ?_⟩
    have hmem : some { j with toJobHeader := repairJob j.toJobHeader } ∈ repaired.jobs := by
      show _ ∈ js.map some
      rw [hmap]
      exact List.mem_map.mpr ⟨some j, hj, rfl⟩
    have hsound : SoundJob { j with toJobHeader := repairJob j.toJobHeader } :=
      ⟨hnone _ hmem, hbatches _ hmem⟩
    exact ⟨hsound.steps, hsound.batches⟩
  obtain ⟨before, after, hsplit⟩ := List.append_of_mem hj
  obtain ⟨events, hevents⟩ : ∃ events, ¬ ∃ s', Panic.run
      (handle number decode equalFold projectID)
      { file := some repaired, disk := some (.found data) } events = .ok s' :=
    nil_step_panics hsteps _ rfl rfl hsplit (whole_map id js) hbatches
  have hload : handle number decode equalFold projectID { disk := some (.found data) }
      ({ now := 0 }, .op .read) = .ok { file := some repaired, disk := some (.found data) } := by
    simp [handle, State.call, State.refused, State.project, Content.read, hpf, hrepair,
      State.onFile, Except.map]
  exact ⟨_ :: events, by rw [Panic.run, hload]; exact hevents⟩

/-- A listed job with a nil batch has a listing that ends in a panic. -/
theorem listed_panics {pf : NilFile} (hpf : (Content.found data).direct decode = some pf)
    {j : NilJob} (hj : some j ∈ pf.jobs) (hlisted : Listed equalFold pf j)
    (hnil : ¬ Whole j.batches) : ∃ event p, handle number decode equalFold projectID
      { disk := some (.found data) } event = .error p := by
  have hlist : ∀ selects : NilFile → NilJob → Bool, selects pf j = true →
      ∃ p, ({ disk := some (.found data) } : State).listed decode { now := 0 } selects = .error p := by
    intro selects hselect
    have hmem : some j ∈ pf.jobs.filter fun j => j.elim false (selects pf) :=
      List.mem_filter.mpr ⟨hj, hselect⟩
    obtain ⟨p, hp⟩ := each_copyJob_panics hmem hnil
    exact ⟨p, by simp [State.listed, hpf, hp, Except.map]⟩
  rcases hlisted with hproject | ⟨userID, email, hinvolved⟩
  · obtain ⟨p, hp⟩ := hlist (fun pf' _ => pf'.projectId ≠ "" ∧ pf'.projectId ∈ [pf.projectId])
      (by simpa using hproject)
    exact ⟨({ now := 0 }, .listForProjects [pf.projectId]), p, by simp only [handle, State.call, hp]; rfl⟩
  · obtain ⟨p, hp⟩ := hlist (fun _ j => jobInvolvesUser j equalFold userID email) hinvolved
    exact ⟨({ now := 0 }, .mine userID email), p, by simp only [handle, State.call, hp]; rfl⟩

/-- The calls on a project have no panic, in any order, if and only if its document is loadable. -/
theorem handles_iff (data : List UInt8) :
    (∀ events, ∃ s, Panic.run (handle number decode equalFold projectID)
      { disk := some (.found data) } events = .ok s) ↔ Loadable number decode equalFold data := by
  constructor
  · intro h
    refine ⟨fun pf hpf => ?_, fun pf hpf j hj hlisted => ?_⟩
    · by_contra hnil
      obtain ⟨events, hevents⟩ : ∃ events, ¬ ∃ s', Panic.run
          (handle number decode equalFold projectID) { disk := some (.found data) } events =
            .ok s' := loaded_panics hpf hnil
      exact hevents (h events)
    · by_contra hnil
      obtain ⟨event, p, hp⟩ : ∃ event p, handle number decode equalFold projectID
          { disk := some (.found data) } event = .error p := listed_panics hpf hj hlisted hnil
      exact Panic.run_panics hp (h _)
  · intro hdata events
    refine Panic.run_ok (I := Sound data) (fun s event hs => ?_) events
      ⟨fun _ hpf => (nomatch hpf), fun c hc => by cases hc; exact .inl rfl⟩
    obtain ⟨result, hcall, hs'⟩ :
        Panic.Ends (s.call number decode equalFold projectID event.1 event.2) _ :=
      hs.call hdata event.1 event.2
    exact ⟨result.1, by simp [handle, hcall, Except.map], hs'⟩

end

end Loading

end Production
