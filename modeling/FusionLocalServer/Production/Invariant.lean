import FusionLocalServer.Production.Calls
import FusionLocalServer.Production.Refinement

/-!
# Invariants of the jobs of a project

What an operation does to the jobs of a project comes to one of four things, if it gets to
change them at all: a job is made, copied, removed, or edited by a call (`Changed`). An
operation then either leaves the file in memory and the one on disk as they are, loads, drops
what is in memory, or changes the jobs and saves both alike (`Project.exec_cases`).

So a property of single jobs that these four keep, and the repair at loading, holds of every
job there ever is, in memory and on disk (`JobRule.holds`).
-/

namespace Production

open Lib (Time trimSpace bind_ok refuse_ok findIdx_ok)
open FusionLocalServer.Storage

/-- What one operation can do to the list of jobs. -/
inductive Changed (now : Time) : Op → List JobVal → List JobVal → Prop
  | created {hubID projectName : String} {d : JobDraft} {createdBy : UserRef}
      {jobs : List JobVal} {h : JobHeader} (hstep : h.nextStepNum = 1)
      (hbatch : h.nextBatchNum = 1) (hchild : h.nextChildNum = 1) :
      Changed now (.createJob hubID projectName d createdBy) jobs (jobs ++ [newJob h])
  | copied {hubID projectName jobID : String} {createdBy : UserRef} {jobs : List JobVal}
      {i : Nat} {j : JobVal} (hfirst : jobs.findIdx? (fun j => j.id = jobID) = some i)
      (hget : jobs[i]? = some j) {f : JobHeader → JobHeader}
      (hf : ∀ h, (f h).nextStepNum = h.nextStepNum ∧ (f h).nextBatchNum = 1 ∧
        (f h).nextChildNum = h.nextChildNum) :
      Changed now (.duplicateJob hubID projectName jobID createdBy) jobs
        (jobs ++ [duplicate f j])
  | removed {jobID : String} {jobs : List JobVal} {i : Nat} {j : JobVal}
      (hfirst : jobs.findIdx? (fun j => j.id = jobID) = some i) (hget : jobs[i]? = some j) :
      Changed now (.deleteJob jobID) jobs (jobs.eraseIdx i)
  | edited {jobID : String} {jobs : List JobVal} {i : Nat} {j : JobVal} {c : JobCall}
      {op : JobOp} {edits : List JobEdit}
      (hfirst : jobs.findIdx? (fun j => j.id = jobID) = some i) (hget : jobs[i]? = some j)
      (hc : c.closure now = .ok op) (hop : op j = .ok edits) :
      Changed now (.onJob jobID c) jobs (jobs.set i (applyAll (edits ++ [touchJob now]) j))

/-- The job that a search by id ends at has it. -/
theorem of_findIdx {jobs : List JobVal} {jobID : String} {i : Nat} {j : JobVal}
    (hfirst : jobs.findIdx? (fun j => j.id = jobID) = some i) (hget : jobs[i]? = some j) :
    j.id = jobID := by
  obtain ⟨x, hx, hid⟩ := findIdx_ok hfirst
  rw [hget] at hx
  cases hx
  exact of_decide_eq_true hid

/-! ## Calls on the file -/

section Calls

variable {now : Time} {op : FileOp} {pf : FileVal} {edits : List FileEdit}

theorem createJob_changed {hubID projectName : String} {d : JobDraft} {createdBy : UserRef}
    (h : createJob now hubID projectName d createdBy = .ok op) (hop : op pf = .ok edits) :
    Changed now (.createJob hubID projectName d createdBy) pf.jobs (applyFile edits pf).jobs := by
  obtain ⟨-, -, h⟩ := bind_ok h
  obtain ⟨-, -, h⟩ := bind_ok h
  cases h
  obtain ⟨-, hop⟩ := refuse_ok hop
  cases hop
  exact .created rfl rfl rfl

theorem duplicateJob_changed {hubID projectName jobID : String} {createdBy : UserRef}
    (h : duplicateJob now hubID projectName jobID createdBy = .ok op) (hop : op pf = .ok edits) :
    Changed now (.duplicateJob hubID projectName jobID createdBy) pf.jobs
      (applyFile edits pf).jobs := by
  cases h
  obtain ⟨-, hop⟩ := refuse_ok hop
  split at hop
  · cases hop
  · next i hi =>
    cases hop
    obtain ⟨j, hj, -⟩ := findIdx_ok hi
    unfold applyFile
    simp only [List.foldl_cons, List.foldl_nil, FileEdit.apply, nextJob, hj, Option.map_some,
      Option.toList_some]
    exact .copied hi hj fun _ => ⟨rfl, rfl, rfl⟩

theorem deleteJob_changed {jobID : String} (h : deleteJob jobID = .ok op)
    (hop : op pf = .ok edits) :
    Changed now (.deleteJob jobID) pf.jobs (applyFile edits pf).jobs := by
  cases h
  dsimp only at hop
  split at hop
  · cases hop
  · next i hi =>
    cases hop
    obtain ⟨j, hj, -⟩ := findIdx_ok hi
    exact .removed hi hj

end Calls

namespace Project

variable {p : Project}

/-- What an operation leaves of the file in memory and the one on disk. -/
inductive Outcome (env : Env) (projectID : String) (op : Op) (p : Project) : Project → Prop
  | same : Outcome env projectID op p p
  /-- It was loaded, and at most the stamp changed. -/
  | kept {pf pf' : FileVal} (hload : p.loaded env projectID = .ok pf) (hjobs : pf'.jobs = pf.jobs)
      (hnext : pf'.nextJobNum = pf.nextJobNum) : Outcome env projectID op p { p with file := some pf' }
  | saved {pf pf' : FileVal} (hload : p.loaded env projectID = .ok pf)
      (hchange : Changed env.now op pf.jobs pf'.jobs) :
      Outcome env projectID op p { file := some pf', disk := some pf' }
  | dropped : op = .reset → Outcome env projectID op p { p with file := none }
  | deleted {r : Removal} : op = .deleteProject r →
      Outcome env projectID op p { file := none, disk := if r.gone then none else p.disk }

theorem save_outcome {env : Env} {projectID : String} {op : Op} {pf old new : FileVal}
    {result : Option JobVal} (hload : p.loaded env projectID = .ok pf)
    (hjobs : old.jobs = pf.jobs) (hnext : old.nextJobNum = pf.nextJobNum)
    (hchange : Changed env.now op pf.jobs new.jobs) :
    Outcome env projectID op p (p.save env old new result).1 := by
  unfold save
  split
  · exact .kept hload hjobs hnext
  · exact .saved hload hchange

theorem mutate_outcome {env : Env} {projectID : String} {op : Op} {fop : FileOp}
    (hchange : ∀ pf edits, fop pf = .ok edits → Changed env.now op pf.jobs (applyFile edits pf).jobs) :
    Outcome env projectID op p (p.mutate env projectID fop).1 := by
  unfold mutate
  split
  · exact .same
  · next pf hload =>
    split
    · exact .kept hload rfl rfl
    · next edits hop => exact save_outcome hload rfl rfl (hchange pf edits hop)

theorem mutateJob_outcome {env : Env} {projectID jobID : String} {c : JobCall} {op : JobOp}
    (hc : c.closure env.now = .ok op) :
    Outcome env projectID (.onJob jobID c) p (p.mutateJob env projectID jobID op).1 := by
  unfold mutateJob
  split
  · exact .same
  · next pf hload =>
    split
    · exact .kept hload rfl rfl
    · next i hi =>
      split
      · exact .kept hload rfl rfl
      · next j hget =>
        split
        · exact .kept hload rfl rfl
        · next edits hop =>
          refine save_outcome hload rfl ?_ (.edited hi hget hc hop)
          dsimp only
          unfold touchFile
          split <;> rfl

/-- What an operation comes to. -/
theorem exec_cases (p : Project) (env : Env) (projectID : String) (op : Op) :
    Outcome env projectID op p (p.exec env projectID op).1 := by
  cases op with
  | createJob hubID projectName d createdBy =>
    unfold exec
    dsimp only
    cases h : Production.createJob env.now hubID projectName d createdBy with
    | error e => exact .same
    | ok op => exact mutate_outcome fun pf edits hop => createJob_changed h hop
  | duplicateJob hubID projectName jobID createdBy =>
    unfold exec
    dsimp only
    cases h : Production.duplicateJob env.now hubID projectName jobID createdBy with
    | error e => exact .same
    | ok op => exact mutate_outcome fun pf edits hop => duplicateJob_changed h hop
  | deleteJob jobID =>
    unfold exec
    dsimp only
    cases h : Production.deleteJob jobID with
    | error e => exact .same
    | ok op => exact mutate_outcome fun pf edits hop => deleteJob_changed h hop
  | onJob jobID c =>
    unfold exec
    dsimp only
    cases h : c.closure env.now with
    | error e => exact .same
    | ok op => exact mutateJob_outcome h
  | read =>
    unfold exec
    dsimp only
    cases h : p.loaded env projectID with
    | error e => exact .same
    | ok pf => exact .kept h rfl rfl
  | reset => exact .dropped rfl
  | deleteProject r => exact .deleted rfl

end Project

/-! ## Properties of single jobs -/

/-- The property holds of new jobs, and is kept by whatever is done to a job. -/
structure JobRule (P : JobVal → Prop) : Prop where
  new : ∀ h : JobHeader, h.nextStepNum = 1 → h.nextBatchNum = 1 → h.nextChildNum = 1 →
    P (newJob h)
  copy : ∀ (f : JobHeader → JobHeader) (j : JobVal),
    (∀ h, (f h).nextStepNum = h.nextStepNum ∧ (f h).nextBatchNum = 1 ∧
      (f h).nextChildNum = h.nextChildNum) → P j → P (duplicate f j)
  call : ∀ {now : Time} {c : JobCall} {op : JobOp} {j : JobVal} {edits : List JobEdit},
    c.closure now = .ok op → op j = .ok edits → P j → P (applyAll edits j)
  touch : ∀ (now : Time) (j : JobVal), P j → P ((touchJob now).apply j)
  repair : ∀ j : JobVal, P j → P { j with toJobHeader := repairJob j.toJobHeader }

/-- The property holds of every job of a project, in memory and on disk. -/
def Holds (P : JobVal → Prop) (p : Project) : Prop :=
  ∀ pf, p.file = some pf ∨ p.disk = some pf → ∀ j ∈ pf.jobs, P j

section Rule

variable {P : JobVal → Prop}

theorem JobRule.changed (h : JobRule P) {now : Time} {op : Op} {jobs jobs' : List JobVal}
    (hchange : Changed now op jobs jobs') (hjobs : ∀ j ∈ jobs, P j) : ∀ j ∈ jobs', P j := by
  intro j hj
  cases hchange with
  | created hstep hbatch hchild =>
    rcases List.mem_append.mp hj with hj | hj
    · exact hjobs j hj
    · rw [List.mem_singleton.mp hj]
      exact h.new _ hstep hbatch hchild
  | copied _ hget hf =>
    rcases List.mem_append.mp hj with hj | hj
    · exact hjobs j hj
    · rw [List.mem_singleton.mp hj]
      exact h.copy _ _ hf (hjobs _ (List.mem_of_getElem? hget))
  | removed _ _ => exact hjobs j (List.mem_of_mem_eraseIdx hj)
  | edited _ hget hc hop =>
    rcases List.mem_or_eq_of_mem_set hj with hj | rfl
    · exact hjobs j hj
    · unfold applyAll
      rw [List.foldl_append]
      exact h.touch _ _ (h.call hc hop (hjobs _ (List.mem_of_getElem? hget)))

theorem JobRule.loaded (h : JobRule P) {p : Project} {env : Env} {projectID : String}
    {pf : FileVal} (hp : Holds P p) (hload : p.loaded env projectID = .ok pf) :
    ∀ j ∈ pf.jobs, P j := by
  unfold Project.loaded at hload
  split at hload
  · next pf' hfile =>
    cases hload
    exact hp pf (.inl hfile)
  · unfold loadFile at hload
    split at hload
    · cases hload
    · split at hload
      · cases hload
        exact fun j hj => (nomatch hj)
      · next pf' hdisk =>
        obtain ⟨-, hload⟩ := refuse_ok hload
        cases hload
        intro j hj
        obtain ⟨j', hj', rfl⟩ := List.mem_map.mp hj
        exact h.repair j' (hp pf' (.inr hdisk) j' hj')

/-- One operation keeps the property of all jobs. -/
theorem JobRule.exec (h : JobRule P) {p : Project} (hp : Holds P p) (env : Env)
    (projectID : String) (op : Op) : Holds P (p.exec env projectID op).1 := by
  generalize hout : (p.exec env projectID op).1 = p'
  have hcases := p.exec_cases env projectID op
  rw [hout] at hcases
  intro pf hpf
  cases hcases with
  | same => exact hp pf hpf
  | kept hload hjobs hnext =>
    rcases hpf with hpf | hpf
    · cases hpf
      rw [hjobs]
      exact h.loaded hp hload
    · exact hp pf (.inr hpf)
  | saved hload hchange =>
    rcases hpf with hpf | hpf <;>
    · cases hpf
      exact h.changed hchange (h.loaded hp hload)
  | dropped _ =>
    rcases hpf with hpf | hpf
    · cases hpf
    · exact hp pf (.inr hpf)
  | deleted _ =>
    rcases hpf with hpf | hpf
    · cases hpf
    · dsimp only at hpf
      split at hpf
      · cases hpf
      · exact hp pf (.inr hpf)

/-- The property holds of every job in every state of the store there can be. -/
theorem JobRule.holds (h : JobRule P) {projectID : String} {es : List Event} {s : State}
    (hrun : Lib.Run (State.Happens projectID) Lib.always State.init es s) : Holds P s.view := by
  obtain ⟨-, hvals⟩ := State.run_refines hrun State.init_ok
  refine hvals.invariant (P := Holds P) (fun pf hpf => ?_) fun p e p' hp _ hstep => ?_
  · rcases hpf with hpf | hpf <;> cases hpf
  · rw [← show (p.exec e.env projectID e.op).1 = p' from hstep]
    exact h.exec hp e.env projectID e.op

end Rule

/-! ## Runs of calls -/

/-- Calls made all at one time, with every save going through. -/
def calls (ops : List Op) : List Event := ops.map fun op => { env := { now := 1 }, op }

/-- Where the events lead. -/
def after (projectID : String) (es : List Event) (s : State) : State :=
  es.foldl (fun s e => (s.exec e.env projectID e.op).1) s

theorem run_after (projectID : String) (es : List Event) (s : State) :
    Lib.Run (State.Happens projectID) Lib.always s es (after projectID es s) :=
  Lib.Run.foldl es (fun _ _ _ => trivial) s

end Production
