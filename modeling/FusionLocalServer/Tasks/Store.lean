import FusionLocalServer.Lib.Ownership
import FusionLocalServer.Lib.Run
import FusionLocalServer.Tasks.Project

/-!
# The task store in memory

The objects of a loaded project: the file and the tasks behind pointers, with their slices.
A mutation copies the whole file before its first write, and puts the copy in place of the
file when the save fails. Each operation of the store does to the value of the file in
memory, and to the file on disk, what the operation on values does (`State.exec_refines`).
-/

namespace Tasks

open Lib (Memory View Slice)
open Lib.Memory
open FusionLocalServer.Storage

instance : Inhabited (Task Slice) := ⟨⟨default, default, default⟩⟩
instance : Inhabited (ProjectFile Slice Nat) := ⟨⟨default, default⟩⟩

/-- What a cell of the memory holds. -/
inductive Cell where
  | file (x : ProjectFile Slice Nat)
  | task (x : Task Slice)
  | pointers (xs : List Nat)
  | strings (xs : List String)

abbrev Mem := Memory Cell

namespace View

def file : View Cell (ProjectFile Slice Nat) where
  get | .file x => x | _ => default
  put := .file
  get_put _ := rfl

def task : View Cell (Task Slice) where
  get | .task x => x | _ => default
  put := .task
  get_put _ := rfl

def pointers : View Cell (List Nat) where
  get | .pointers xs => xs | _ => []
  put := .pointers
  get_put _ := rfl

def strings : View Cell (List String) where
  get | .strings xs => xs | _ => []
  put := .strings
  get_put _ := rfl

end View

/-- A task object: the documents attached to it, and what it depends on. -/
def taskShape : Shape Cell Nat TaskVal :=
  (((Shape.data View.strings).pair (Shape.data View.strings)).via
    (fun t : Task Slice => (t.docRefs, t.dependsOn))
    fun t v => { toTaskHeader := t.toTaskHeader, docRefs := v.1
                 dependsOn := v.2 }).ptr View.task

/-- The file object. -/
def fileShape : Shape Cell Nat FileVal :=
  ((Shape.each View.pointers taskShape).via (fun pf : ProjectFile Slice Nat => pf.tasks)
    fun pf v => { toFileHeader := pf.toFileHeader, tasks := v }).ptr View.file

section Objects

variable (grow : Nat → Nat)

/-! ## Copies -/

def copyTask (m : Mem) (p : Nat) : Mem × Nat :=
  let t := m.read View.task p
  let (m, docRefs) := m.newSlice View.strings (grow (m.elems View.strings t.docRefs).length)
    (m.elems View.strings t.docRefs)
  let (m, dependsOn) := m.newSlice View.strings (grow (m.elems View.strings t.dependsOn).length)
    (m.elems View.strings t.dependsOn)
  m.alloc View.task { toTaskHeader := t.toTaskHeader, docRefs, dependsOn }

def cloneFile (m : Mem) (p : Nat) : Mem × Nat :=
  let pf := m.read View.file p
  let (m, copies) := mapFresh (copyTask grow) m (m.elems View.pointers pf.tasks)
  let (m, tasks) := m.newSlice View.pointers 0 copies
  m.alloc View.file { toFileHeader := pf.toFileHeader, tasks }

/-! ## Writes -/

def TaskEdit.exec (m : Mem) (p : Nat) : TaskEdit → Mem
  | .fields f =>
    let t := m.read View.task p
    m.write View.task p { t with toTaskHeader := f t.toTaskHeader }
  | .setDocRefs refs =>
    let t := m.read View.task p
    let (m, docRefs) := m.newSlice View.strings (grow refs.length) refs
    m.write View.task p { t with docRefs }
  | .setDependsOn deps =>
    let t := m.read View.task p
    let (m, dependsOn) := m.newSlice View.strings (grow deps.length) deps
    m.write View.task p { t with dependsOn }
  | .dropDependency id =>
    let t := m.read View.task p
    let (m, dependsOn) := m.filter View.strings t.dependsOn fun dep => dep ≠ id
    m.write View.task p { t with dependsOn }

/-- The task with its lists; also what decoding makes of one. -/
def allocTask (m : Mem) (h : TaskHeader) (docRefs dependsOn : List String) : Mem × Nat :=
  let (m, docRefs) := m.newSlice View.strings (grow docRefs.length) docRefs
  let (m, dependsOn) := m.newSlice View.strings (grow dependsOn.length) dependsOn
  m.alloc View.task { toTaskHeader := h, docRefs, dependsOn }

def FileEdit.exec (m : Mem) (p : Nat) : FileEdit → Mem
  | .fields f =>
    let pf := m.read View.file p
    m.write View.file p { pf with toFileHeader := f pf.toFileHeader }
  | .addTask h docRefs dependsOn =>
    let pf := m.read View.file p
    let (m, q) := allocTask grow m h docRefs dependsOn
    let (m, tasks) := m.append View.pointers (grow pf.tasks.len) pf.tasks q
    m.write View.file p { pf with tasks }
  | .removeTask i =>
    let pf := m.read View.file p
    let (m, tasks) := m.removeAt View.pointers pf.tasks i
    m.write View.file p { pf with tasks }
  | .onTask i e =>
    match (m.elems View.pointers (m.read View.file p).tasks)[i]? with
    | none => m
    | some q => e.exec grow m q

def execFile (edits : List FileEdit) (m : Mem) (p : Nat) : Mem :=
  edits.foldl (fun m e => e.exec grow m p) m

def decodeFile (m : Mem) (pf : FileVal) : Mem × Nat :=
  let (m, made) := mapFresh
    (fun m (t : TaskVal) => allocTask grow m t.toTaskHeader t.docRefs t.dependsOn) m pf.tasks
  let (m, tasks) := m.newSlice View.pointers (grow made.length) made
  m.alloc View.file { toFileHeader := pf.toFileHeader, tasks }

end Objects

/-! ## The store -/

/-- One project of the store: the memory, the pointer to the loaded file, and the disk. -/
structure State where
  mem : Mem
  file : Option Nat
  disk : Option FileVal

namespace State

/-- A project that was never touched. -/
def init : State :=
  { mem := { next := 0, cell := fun _ => .pointers [] }, file := none, disk := none }

/-- The value of the file in memory. -/
def value (s : State) (p : Nat) : FileVal := fileShape.val s.mem p

/-- `project`: the pointer to the file, which is loaded first if need be. -/
def project (s : State) (env : Env) (projectID : String) : Except Err (State × Nat) :=
  match s.file with
  | some p => .ok (s, p)
  | none =>
    match loadFile env projectID s.disk with
    | .error e => .error e
    | .ok pf =>
      let (mem, p) := decodeFile env.grow s.mem pf
      .ok ({ s with mem, file := some p }, p)

/-- `saveFile`; true when it succeeds. -/
def saveFile (s : State) (env : Env) (p : Nat) : State × Bool :=
  if env.dirFails then (s, false)
  else
    let pf := s.mem.read View.file p
    let s := { s with
      mem := s.mem.write View.file p { pf with toFileHeader := touchFile env pf.toFileHeader } }
    if env.saveFails then (s, false) else ({ s with disk := some (s.value p) }, true)

/-- What the mutations do once the project is loaded and their checks have passed: the copy,
the writes, and the save or the copy in the file's place. -/
def commit (s : State) (env : Env) (p : Nat) (c : Mutation) : State × Result :=
  let (mem, prev) := cloneFile env.grow s.mem p
  let s := { s with mem := execFile env.grow c.edits mem p }
  let (s, saved) := s.saveFile env p
  if saved then (s, .ok (tasksAt c.returned (s.value p)))
  else ({ s with file := some prev }, .error saveErr)

/-- A mutation of the project. -/
def mutate (s : State) (env : Env) (projectID : String) (op : FileOp) : State × Result :=
  match s.project env projectID with
  | .error e => (s, .error e)
  | .ok (s, p) =>
    match op (s.value p) with
    | .error e => (s, .error e)
    | .ok c => s.commit env p c

/-- One operation. -/
def exec (s : State) (env : Env) (projectID : String) (op : Op) : State × Result :=
  match op.mutation env.now with
  | some (.error e) => (s, .error e)
  | some (.ok fop) => s.mutate env projectID fop
  | none =>
    match op with
    | .reset => ({ s with file := none }, .ok [])
    | .deleteProject r =>
      ({ s with file := none, disk := if r.gone then none else s.disk }, removed r)
    | _ =>
      match s.project env projectID with
      | .error e => (s, .error e)
      | .ok (s, _) => (s, .ok [])

/-- One event of a run of the store. -/
def Happens (projectID : String) (s : State) (e : Event) (s' : State) : Prop :=
  (s.exec e.env projectID e.op).1 = s'

end State

/-! ## Objects and values -/

section Refinement

variable (grow : Nat → Nat) {m : Mem}

theorem fresh_copyTask {p : Nat} (ho : Owned taskShape m p) :
    Fresh taskShape m (copyTask grow m p).1 (copyTask grow m p).2 (taskShape.val m p) := by
  obtain ⟨hrefs, hdeps, -⟩ := ho.of_ptr.1.of_via.of_pair
  have hrefs' := hrefs.fresh_copy (Touches.refl m [])
    (grow (m.elems View.strings (m.read View.task p).docRefs).length)
  have hdeps' := hdeps.fresh_copy hrefs'.touches
  exact Fresh.ptr (Fresh.via (hrefs'.pair (hdeps' _)) rfl)

theorem fresh_cloneFile {p : Nat} (ho : Owned fileShape m p) :
    Fresh fileShape m (cloneFile grow m p).1 (cloneFile grow m p).2 (fileShape.val m p) :=
  Fresh.ptr (Fresh.via
    (ho.of_ptr.1.of_via.fresh_copyEach (fresh_copyTask grow) (Touches.refl m [])) rfl)

theorem fresh_allocTask (h : TaskHeader) (docRefs dependsOn : List String) :
    Fresh taskShape m (allocTask grow m h docRefs dependsOn).1
      (allocTask grow m h docRefs dependsOn).2 (newTask h docRefs dependsOn) := by
  have hparts := (fresh_newSlice m View.strings (grow docRefs.length) docRefs).pair
    (fresh_newSlice _ View.strings (grow dependsOn.length) dependsOn)
  exact Fresh.ptr (Fresh.via hparts rfl)

theorem fresh_decodeFile (pf : FileVal) :
    Fresh fileShape m (decodeFile grow m pf).1 (decodeFile grow m pf).2 pf := by
  have htasks := fresh_makeEach (m := m) View.pointers
    (fun {m} (t : TaskVal) => fresh_allocTask grow (m := m) t.toTaskHeader t.docRefs t.dependsOn)
    grow pf.tasks
  exact Fresh.ptr (Fresh.via htasks rfl)

theorem TaskEdit.exec_changes (e : TaskEdit) {p : Nat} (ho : Owned taskShape m p) :
    Changes taskShape m p (e.exec grow m p) p (e.apply (taskShape.val m p)) := by
  have hparts := ho.of_ptr.1.of_via
  obtain ⟨-, hdeps, -⟩ := hparts.of_pair
  cases e with
  | fields f => exact Changes.ptr ho (Changes.via hparts.changes_refl rfl)
  | setDocRefs refs =>
    have hnew := fresh_newSlice m View.strings (grow refs.length) refs
    exact Changes.ptr ho (Changes.via (hnew.replaces.pair_left hparts) rfl)
  | setDependsOn deps =>
    have hnew := fresh_newSlice m View.strings (grow deps.length) deps
    exact Changes.ptr ho (Changes.via (hnew.replaces.pair_right hparts) rfl)
  | dropDependency id =>
    have hkept := (filter_leaves hdeps.wf fun dep => decide (dep ≠ id)).changes
    exact Changes.ptr ho (Changes.via (hkept.pair_right hparts) rfl)

theorem FileEdit.exec_changes (e : FileEdit) {p : Nat} (ho : Owned fileShape m p) :
    Changes fileShape m p (e.exec grow m p) p (e.apply (fileShape.val m p)) := by
  have htasks := ho.of_ptr.1.of_via
  cases e with
  | fields f => exact Changes.ptr ho (Changes.via htasks.changes_refl rfl)
  | addTask h docRefs dependsOn =>
    have happend := (fresh_allocTask grow h docRefs dependsOn).each_append htasks
      (grow (m.read View.file p).tasks.len)
    exact Changes.ptr ho (Changes.via happend rfl)
  | removeTask i => exact Changes.ptr ho (Changes.via (htasks.each_removeAt i) rfl)
  | onTask i e =>
    have hmodify : Changes (Shape.each View.pointers taskShape) m _
        ((FileEdit.onTask i e).exec grow m p) _ _ :=
      htasks.each_modify i (fun t => e.apply t) (fun hget => by simp only [FileEdit.exec, hget])
        fun q hget hq => by
          simp only [FileEdit.exec, hget]
          exact e.exec_changes grow hq
    exact Changes.ptr_same ho (Changes.via hmodify rfl)

theorem execFile_changes (edits : List FileEdit) :
    ∀ {m : Mem} {p : Nat}, Owned fileShape m p →
      Changes fileShape m p (execFile grow edits m p) p (applyFile edits (fileShape.val m p)) := by
  induction edits with
  | nil => exact fun ho => ho.changes_refl
  | cons e edits ih =>
    intro m p ho
    have hone := e.exec_changes grow ho
    have hrest := ih hone.owned
    rw [hone.val] at hrest
    exact hone.trans hrest

end Refinement

namespace State

/-- The file in memory is owned. -/
def Ok (s : State) : Prop := ∀ p, s.file = some p → Owned fileShape s.mem p

/-- The project as a value. -/
def view (s : State) : Project := { file := s.file.map s.value, disk := s.disk }

/-- What an operation leaves is what the operation on values leaves, and it returns the
same. -/
structure Refines (r : State × Result) (v : Project × Result) : Prop where
  ok : r.1.Ok
  view : r.1.view = v.1
  result : r.2 = v.2

variable {s : State} {p : Nat}

theorem Refines.loaded {pf : FileVal} {disk : Option FileVal} {result result' : Result}
    (hp : s.file = some p) (ho : Owned fileShape s.mem p) (hval : s.value p = pf)
    (hdisk : s.disk = disk) (hresult : result = result') :
    Refines (s, result) (⟨some pf, disk⟩, result') where
  ok p' hp' := by
    rw [hp] at hp'
    cases hp'
    exact ho
  view := by
    unfold State.view
    rw [hp, hdisk, ← hval]
    rfl
  result := hresult

/-- Loading, or finding it loaded. -/
theorem project_spec (h : s.Ok) (env : Env) (projectID : String) :
    match s.project env projectID with
    | .error e => s.view.loaded env projectID = .error e
    | .ok (s', p) => s'.file = some p ∧ s'.disk = s.disk ∧ Owned fileShape s'.mem p ∧
        s.view.loaded env projectID = .ok (s'.value p) := by
  unfold project Project.loaded view
  cases hfile : s.file with
  | some p => exact ⟨hfile, rfl, h p hfile, rfl⟩
  | none =>
    dsimp only [Option.map_none]
    cases hload : loadFile env projectID s.disk with
    | error e => rfl
    | ok pf =>
      have hfresh := fresh_decodeFile env.grow (m := s.mem) pf
      exact ⟨rfl, rfl, hfresh.owned, congrArg Except.ok hfresh.val.symm⟩

/-- Whether a save goes through. -/
def saves (env : Env) : Bool := !(env.dirFails || env.saveFails)

theorem saveFile_spec (env : Env) (ho : Owned fileShape s.mem p) :
    ∃ m, s.saveFile env p =
        ({ s with mem := m, disk := if saves env then some (fileShape.val m p) else s.disk },
          saves env) ∧
      Changes fileShape s.mem p m p (Project.stamped env (s.value p)) := by
  unfold saveFile saves Project.stamped touchFile
  cases hdir : env.dirFails with
  | true => exact ⟨s.mem, rfl, ho.changes_refl⟩
  | false =>
    have hc := (FileEdit.fields (touchFile env)).exec_changes env.grow ho
    unfold FileEdit.exec FileEdit.apply touchFile at hc
    rw [hdir] at hc
    refine ⟨_, ?_, hc⟩
    cases hsave : env.saveFails
    · simp [value]
    · simp

theorem mutate_refines (h : s.Ok) (env : Env) (projectID : String) (op : FileOp) :
    Refines (s.mutate env projectID op) (s.view.mutate env projectID op) := by
  have hproject := project_spec h env projectID
  unfold mutate Project.mutate
  cases hs : s.project env projectID with
  | error e =>
    rw [hs] at hproject
    rw [hproject]
    exact ⟨h, rfl, rfl⟩
  | ok loaded =>
    obtain ⟨s', p⟩ := loaded
    rw [hs] at hproject
    obtain ⟨hfile, hdisk, ho, hload⟩ := hproject
    rw [hload]
    dsimp only
    cases hop : op (s'.value p) with
    | error e => exact .loaded hfile ho rfl hdisk rfl
    | ok c =>
      dsimp only
      have hclone := fresh_cloneFile env.grow ho
      obtain ⟨ho', hval, hapart⟩ := hclone.apart ho
      have hedits := execFile_changes env.grow c.edits ho'
      -- the clone lies apart from the file, so neither the edits nor the save reach it
      obtain ⟨hprev, hprevval, -, hapart'⟩ := hedits.apart hclone.owned hapart
      obtain ⟨m, hsave, hc⟩ := saveFile_spec env (s :=
        { s' with mem := execFile env.grow c.edits (cloneFile env.grow s'.mem p).1 p })
        hedits.owned
      obtain ⟨hprev', hprevval', -⟩ := hc.apart hprev hapart'
      have hnew : fileShape.val m p =
          Project.stamped env (applyFile c.edits (s'.value p)) := by
        rw [hc.val]
        exact congrArg (Project.stamped env)
          (hedits.val.trans (congrArg (applyFile c.edits) hval))
      unfold commit
      dsimp only
      rw [hsave]
      unfold saves
      cases hfails : env.dirFails || env.saveFails with
      | true => exact .loaded rfl hprev' (hprevval'.trans (hprevval.trans hclone.val)) hdisk rfl
      | false =>
        exact .loaded hfile hc.owned hnew (congrArg some hnew)
          (congrArg (fun pf => Except.ok (tasksAt c.returned pf)) hnew)

/-- The store keeps what the project as a value keeps, whatever comes. -/
theorem exec_refines (h : s.Ok) (env : Env) (projectID : String) (op : Op) :
    Refines (s.exec env projectID op) (s.view.exec env projectID op) := by
  unfold exec Project.exec
  cases op.mutation env.now with
  | some fop =>
    cases fop with
    | error e => exact ⟨h, rfl, rfl⟩
    | ok fop => exact mutate_refines h env projectID fop
  | none =>
    have hread : Refines
        (match s.project env projectID with
          | .error e => (s, .error e)
          | .ok (s, _) => (s, .ok []))
        (match s.view.loaded env projectID with
          | .error e => (s.view, .error e)
          | .ok pf => ({ s.view with file := some pf }, .ok [])) := by
      have hproject := project_spec h env projectID
      cases hs : s.project env projectID with
      | error e =>
        rw [hs] at hproject
        rw [hproject]
        exact ⟨h, rfl, rfl⟩
      | ok loaded =>
        obtain ⟨s', p⟩ := loaded
        rw [hs] at hproject
        obtain ⟨hfile, hdisk, ho, hload⟩ := hproject
        rw [hload]
        exact .loaded hfile ho rfl hdisk rfl
    cases op with
    | reset => exact ⟨fun p hp => (nomatch hp), rfl, rfl⟩
    | deleteProject r => exact ⟨fun p hp => (nomatch hp), rfl, rfl⟩
    | _ => exact hread

theorem init_ok : init.Ok := fun _ hp => (nomatch hp)

/-- The run the project as a value takes with a run of the store. -/
theorem run_refines {projectID : String} {ok : Project → Event → Prop} {es : List Event}
    {s t : State} (hrun : Lib.Run (Happens projectID) (fun s e => ok s.view e) s es t)
    (hs : s.Ok) : t.Ok ∧ Lib.Run (Project.Happens projectID) ok s.view es t.view := by
  induction hrun with
  | nil => exact ⟨hs, .nil⟩
  | snoc _ hadmitted hstep ih =>
    obtain ⟨hok, hvals⟩ := ih
    obtain ⟨hok', hview, -⟩ := exec_refines hok _ projectID _
    rw [show _ = _ from hstep] at hok' hview
    exact ⟨hok', .snoc hvals hadmitted hview.symm⟩

end State

end Tasks
