import FusionLocalServer.Production.Store

/-!
# The store in memory is the project as a value

The steps of the argument follow the source. Copying an object that is owned makes a fresh
one of the same value, so nothing is shared between a job and its rollback copy, or between
the plan and a batch frozen from it. A write through a pointer changes the object it is in
as the write of the value says. Then each operation of the store, its rollbacks included,
does to the value of the file in memory, and to the file on disk, what the operation on
values does (`State.exec_refines`), and keeps the file owned.
-/

namespace Production

open Lib (View Slice)
open Lib.Memory
open FusionLocalServer.Storage

variable (grow : Nat → Nat) {m m' : Mem}

/-! ## Copies are fresh -/

theorem fresh_copySlice {α : Type} [Inhabited α] {view : View Cell (List α)} {s : Slice α}
    (ho : Owned (Shape.data view) m s) (ht : Touches m m' []) :
    Fresh (Shape.data view) m' (copySlice grow view m' s).1 (copySlice grow view m' s).2
      ((Shape.data view).val m s) := by
  unfold copySlice
  exact ho.fresh_copy ht _

theorem fresh_copyStep {p : Nat} (ho : Owned stepShape m p) :
    Fresh stepShape m (copyStep grow m p).1 (copyStep grow m p).2 (stepShape.val m p) := by
  obtain ⟨hdocs, hrest, -⟩ := ho.of_ptr.1.of_via.of_pair
  obtain ⟨hslots, hresults, -⟩ := hrest.of_pair
  have hdocs' := fresh_copySlice grow hdocs (Touches.refl m [])
  have hslots' := fresh_copySlice grow hslots hdocs'.touches
  have hresults' := fresh_copySlice grow hresults
    (hdocs'.touches.trans hslots'.touches fun _ hmem => (nomatch hmem))
  exact Fresh.ptr (Fresh.via (hdocs'.pair (hslots'.pair hresults')) rfl)

theorem fresh_copyBatchStep {bs : BatchStep Slice} (ho : Owned batchStepShape m bs) :
    Fresh batchStepShape m (copyBatchStep grow m bs).1 (copyBatchStep grow m bs).2
      (batchStepShape.val m bs) := by
  obtain ⟨hdocs, hslots, -⟩ := ho.of_via.of_pair
  have hdocs' := fresh_copySlice grow hdocs (Touches.refl m [])
  have hslots' := fresh_copySlice grow hslots hdocs'.touches
  exact Fresh.via (hdocs'.pair hslots') rfl

theorem fresh_copyBatch {p : Nat} (ho : Owned batchShape m p) :
    Fresh batchShape m (copyBatch grow m p).1 (copyBatch grow m p).2 (batchShape.val m p) := by
  obtain ⟨hsteps, hrest, -⟩ := ho.of_ptr.1.of_via.of_pair
  obtain ⟨hfulfillments, hrest, -⟩ := hrest.of_pair
  obtain ⟨hrefs, hhidden, -⟩ := hrest.of_pair
  have hsteps' := hsteps.fresh_copyEach (fresh_copyBatchStep grow) (Touches.refl m [])
  have hfulfillments' := fresh_copySlice grow hfulfillments hsteps'.touches
  have ht := hsteps'.touches.trans hfulfillments'.touches fun _ hmem => (nomatch hmem)
  have hrefs' := fresh_copySlice grow hrefs ht
  have ht := ht.trans hrefs'.touches fun _ hmem => (nomatch hmem)
  have hhidden' := fresh_copySlice grow hhidden ht
  exact Fresh.ptr (Fresh.via (hsteps'.pair (hfulfillments'.pair (hrefs'.pair hhidden'))) rfl)

theorem fresh_copyJob {p : Nat} (ho : Owned jobShape m p) :
    Fresh jobShape m (copyJob grow m p).1 (copyJob grow m p).2 (jobShape.val m p) := by
  obtain ⟨hsteps, hrest, -⟩ := ho.of_ptr.1.of_via.of_pair
  obtain ⟨hedges, hbatches, -⟩ := hrest.of_pair
  have hsteps' := hsteps.fresh_copyEach (fresh_copyStep grow) (Touches.refl m [])
  have hedges' := fresh_copySlice grow hedges hsteps'.touches
  have ht := hsteps'.touches.trans hedges'.touches fun _ hmem => (nomatch hmem)
  have hbatches' := hbatches.fresh_copyEach (fresh_copyBatch grow) ht
  exact Fresh.ptr (Fresh.via (hsteps'.pair (hedges'.pair hbatches')) rfl)

theorem fresh_cloneFile {p : Nat} (ho : Owned fileShape m p) :
    Fresh fileShape m (cloneFile grow m p).1 (cloneFile grow m p).2 (fileShape.val m p) :=
  Fresh.ptr (Fresh.via
    (ho.of_ptr.1.of_via.fresh_copyEach (fresh_copyJob grow) (Touches.refl m [])) rfl)

/-! ## What is made is fresh -/

theorem fresh_allocStep (st : StepHeader) :
    Fresh stepShape m (allocStep m st).1 (allocStep m st).2 (newStep st) := by
  have hparts := (fresh_newSlice m View.planDocs 0 []).pair
    ((fresh_newSlice _ View.placeholders 0 []).pair (fresh_newSlice _ View.results 0 []))
  exact Fresh.ptr (Fresh.via hparts rfl)

/-- A frozen step shares nothing with the step of the plan it was made from. -/
theorem fresh_freezeStep {p : Nat} (ho : Owned stepShape m p) :
    Fresh batchStepShape m (freezeStep grow m p).1 (freezeStep grow m p).2
      (freeze (stepShape.val m p)) := by
  obtain ⟨hdocs, hrest, -⟩ := ho.of_ptr.1.of_via.of_pair
  have hdocs' := fresh_copySlice grow hdocs (Touches.refl m [])
  have hslots' := fresh_copySlice grow hrest.of_pair.1 hdocs'.touches
  exact Fresh.via (hdocs'.pair hslots') rfl

theorem fresh_allocBatch (b : BatchHeader) {live : List Nat} (ho : Owned stepShape.list m live) :
    Fresh batchShape m (allocBatch grow m b live).1 (allocBatch grow m b live).2
      (newBatch b (stepShape.list.val m live)) := by
  have hfrozen : Fresh batchStepShape.list m (mapFresh (freezeStep grow) m live).1
      (mapFresh (freezeStep grow) m live).2 ((stepShape.list.val m live).map freeze) := by
    rw [show (stepShape.list.val m live).map freeze = live.map fun p => freeze (stepShape.val m p)
      from List.map_map ..]
    refine fresh_mapFresh fun p hp m' ht => ?_
    obtain ⟨ho', hval⟩ := (ho.list_mem hp).later ht
    rw [← hval]
    exact fresh_freezeStep grow ho'
  have hparts := (hfrozen.each View.batchSteps (grow (mapFresh (freezeStep grow) m live).2.length)).pair
    ((fresh_newSlice _ View.fulfillments 0 []).pair
      ((fresh_newSlice _ View.strings 0 []).pair (fresh_newSlice _ View.strings 0 [])))
  exact Fresh.ptr (Fresh.via hparts rfl)

theorem fresh_allocJob (h : JobHeader) :
    Fresh jobShape m (allocJob m h).1 (allocJob m h).2 (newJob h) := by
  have hparts := (fresh_nothing (m := m) stepShape View.pointers).pair
    ((fresh_newSlice _ View.edges 0 []).pair (fresh_nothing batchShape View.pointers))
  exact Fresh.ptr (Fresh.via hparts rfl)

/-! ### A file that is decoded -/

theorem fresh_decodeStep (st : StepVal) :
    Fresh stepShape m (decodeStep grow m st).1 (decodeStep grow m st).2 st := by
  have hparts := (fresh_newSlice m View.planDocs (grow st.planDocs.length) st.planDocs).pair
    ((fresh_newSlice _ View.placeholders (grow st.placeholders.length) st.placeholders).pair
      (fresh_newSlice _ View.results (grow st.results.length) st.results))
  exact Fresh.ptr (Fresh.via hparts rfl)

theorem fresh_decodeBatchStep (bs : BatchStepVal) :
    Fresh batchStepShape m (decodeBatchStep grow m bs).1 (decodeBatchStep grow m bs).2 bs := by
  have hparts := (fresh_newSlice m View.planDocs (grow bs.planDocs.length) bs.planDocs).pair
    (fresh_newSlice _ View.placeholders (grow bs.placeholders.length) bs.placeholders)
  exact Fresh.via hparts rfl

theorem fresh_decodeBatch (b : BatchVal) :
    Fresh batchShape m (decodeBatch grow m b).1 (decodeBatch grow m b).2 b := by
  have hparts := (fresh_makeEach (m := m) View.batchSteps (fresh_decodeBatchStep grow) grow b.steps).pair
    ((fresh_newSlice _ View.fulfillments (grow b.fulfillments.length) b.fulfillments).pair
      ((fresh_newSlice _ View.strings (grow b.refs.length) b.refs).pair
        (fresh_newSlice _ View.strings (grow b.hiddenSteps.length) b.hiddenSteps)))
  exact Fresh.ptr (Fresh.via hparts rfl)

theorem fresh_decodeJob (j : JobVal) :
    Fresh jobShape m (decodeJob grow m j).1 (decodeJob grow m j).2 j := by
  have hparts := (fresh_makeEach (m := m) View.pointers (fresh_decodeStep grow) grow j.steps).pair
    ((fresh_newSlice _ View.edges (grow j.edges.length) j.edges).pair
      (fresh_makeEach View.pointers (fresh_decodeBatch grow) grow j.batches))
  exact Fresh.ptr (Fresh.via hparts rfl)

theorem fresh_decodeFile (pf : FileVal) :
    Fresh fileShape m (decodeFile grow m pf).1 (decodeFile grow m pf).2 pf := by
  have hjobs := fresh_makeEach (m := m) View.pointers (fresh_decodeJob grow) grow pf.jobs
  exact Fresh.ptr (Fresh.via hjobs rfl)

/-! ## Writes change the objects as they change the values -/

theorem exec_slice {α : Type} [Inhabited α] {view : View Cell (List α)} {s : Slice α}
    (ho : Owned (Shape.data view) m s) (e : SliceEdit α) :
    Changes (Shape.data view) m s (e.exec view (grow s.len) m s).1
      (e.exec view (grow s.len) m s).2 (e.apply ((Shape.data view).val m s)) :=
  (e.exec_leaves ho.wf (grow s.len)).changes

theorem StepEdit.exec_changes (e : StepEdit) {p : Nat} (ho : Owned stepShape m p) :
    Changes stepShape m p (e.exec grow m p) p (e.apply (stepShape.val m p)) := by
  have hparts := ho.of_ptr.1.of_via
  obtain ⟨hdocs, hrest, -⟩ := hparts.of_pair
  obtain ⟨hslots, hresults, -⟩ := hrest.of_pair
  cases e with
  | fields f => exact Changes.ptr ho (Changes.via hparts.changes_refl rfl)
  | results e =>
    have hc := ((exec_slice grow hresults e).pair_right hrest).pair_right hparts
    exact Changes.ptr ho (Changes.via hc rfl)
  | planDocs e =>
    have hc := (exec_slice grow hdocs e).pair_left hparts
    exact Changes.ptr ho (Changes.via hc rfl)
  | placeholders e =>
    have hc := ((exec_slice grow hslots e).pair_left hrest).pair_right hparts
    exact Changes.ptr ho (Changes.via hc rfl)

theorem BatchEdit.exec_changes (e : BatchEdit) {p : Nat} (ho : Owned batchShape m p) :
    Changes batchShape m p (e.exec grow m p) p (e.apply (batchShape.val m p)) := by
  have hparts := ho.of_ptr.1.of_via
  have hrest := hparts.of_pair.2.1
  have hstrings := hrest.of_pair.2.1
  obtain ⟨hrefs, hhidden, -⟩ := hstrings.of_pair
  cases e with
  | fields f => exact Changes.ptr ho (Changes.via hparts.changes_refl rfl)
  | fulfillments e =>
    have hc := ((exec_slice grow hrest.of_pair.1 e).pair_left hrest).pair_right hparts
    exact Changes.ptr ho (Changes.via hc rfl)
  | refs e =>
    have hc := (((exec_slice grow hrefs e).pair_left hstrings).pair_right hrest).pair_right hparts
    exact Changes.ptr ho (Changes.via hc rfl)
  | hiddenSteps e =>
    have hc :=
      (((exec_slice grow hhidden e).pair_right hstrings).pair_right hrest).pair_right hparts
    exact Changes.ptr ho (Changes.via hc rfl)

theorem JobEdit.exec_changes (e : JobEdit) {p : Nat} (ho : Owned jobShape m p) :
    Changes jobShape m p (e.exec grow m p) p (e.apply (jobShape.val m p)) := by
  have hparts := ho.of_ptr.1.of_via
  obtain ⟨hsteps, hrest, -⟩ := hparts.of_pair
  obtain ⟨hedges, hbatches, -⟩ := hrest.of_pair
  cases e with
  | fields f => exact Changes.ptr ho (Changes.via hparts.changes_refl rfl)
  | edges e =>
    have hc := ((exec_slice grow hedges e).pair_left hrest).pair_right hparts
    exact Changes.ptr ho (Changes.via hc rfl)
  | addStep st =>
    have happend := (fresh_allocStep st).each_append hsteps (grow (m.read View.job p).steps.len)
    exact Changes.ptr ho (Changes.via (happend.pair_left hparts) rfl)
  | removeStep i =>
    exact Changes.ptr ho (Changes.via ((hsteps.each_removeAt i).pair_left hparts) rfl)
  | onStep i e =>
    have hmodify : Changes (Shape.each View.pointers stepShape) m _
        ((JobEdit.onStep i e).exec grow m p) _ _ :=
      hsteps.each_modify i (fun st => e.apply st) (fun hget => by simp only [JobEdit.exec, hget])
        fun q hget hq => by
          simp only [JobEdit.exec, hget]
          exact e.exec_changes grow hq
    exact Changes.ptr_same ho (Changes.via (hmodify.pair_left hparts) rfl)
  | addBatch b =>
    -- the plan is frozen as it stands before the batch is made
    have happend := (fresh_allocBatch grow b hsteps.of_each.1).each_append hbatches
      (grow (m.read View.job p).batches.len)
    exact Changes.ptr ho (Changes.via ((happend.pair_right hrest).pair_right hparts) rfl)
  | removeBatch i =>
    have hc := ((hbatches.each_removeAt i).pair_right hrest).pair_right hparts
    exact Changes.ptr ho (Changes.via hc rfl)
  | onBatch i e =>
    have hmodify : Changes (Shape.each View.pointers batchShape) m _
        ((JobEdit.onBatch i e).exec grow m p) _ _ :=
      hbatches.each_modify i (fun b => e.apply b) (fun hget => by simp only [JobEdit.exec, hget])
        fun q hget hq => by
          simp only [JobEdit.exec, hget]
          exact e.exec_changes grow hq
    exact Changes.ptr_same ho (Changes.via ((hmodify.pair_right hrest).pair_right hparts) rfl)

theorem execAll_changes (edits : List JobEdit) :
    ∀ {m : Mem} {p : Nat}, Owned jobShape m p →
      Changes jobShape m p (execAll grow edits m p) p (applyAll edits (jobShape.val m p)) := by
  induction edits with
  | nil => exact fun ho => ho.changes_refl
  | cons e edits ih =>
    intro m p ho
    have hone := e.exec_changes grow ho
    have hrest := ih hone.owned
    rw [hone.val] at hrest
    exact hone.trans hrest

theorem resetCopy_changes (f : JobHeader → JobHeader) {p : Nat} (ho : Owned jobShape m p) :
    Changes jobShape m p (resetCopy f m p) p (duplicate f (jobShape.val m p)) := by
  have hparts := ho.of_ptr.1.of_via
  have hnothing := (fresh_nothing (m := m) batchShape View.pointers).replaces
    (h := (m.read View.job p).batches)
  have hc := (hnothing.pair_right hparts.of_pair.2.1).pair_right hparts
  exact Changes.ptr ho (Changes.via hc rfl)

theorem FileEdit.exec_changes (e : FileEdit) {p : Nat} (ho : Owned fileShape m p) :
    Changes fileShape m p (e.exec grow m p) p (e.apply (fileShape.val m p)) := by
  have hjobs := ho.of_ptr.1.of_via
  cases e with
  | fields f => exact Changes.ptr ho (Changes.via hjobs.changes_refl rfl)
  | addJob h =>
    have happend := (fresh_allocJob h).each_append hjobs (grow (m.read View.file p).jobs.len)
    exact Changes.ptr ho (Changes.via happend rfl)
  | copyJob i f =>
    have hval : (fileShape.val m p).jobs[i]? =
        (m.elems View.pointers (m.read View.file p).jobs)[i]?.map (jobShape.val m) :=
      List.getElem?_map ..
    unfold FileEdit.apply
    dsimp only
    rw [hval]
    cases hget : (m.elems View.pointers (m.read View.file p).jobs)[i]? with
    | none =>
      have hexec : (FileEdit.copyJob i f).exec grow m p = m := by simp only [FileEdit.exec, hget]
      rw [hexec, Option.map_none, Option.map_none, Option.toList_none, List.append_nil]
      exact ho.changes_refl
    | some src =>
      have hsrc := hjobs.of_each.1.list_mem (List.mem_of_getElem? hget)
      have hcopy := fresh_copyJob grow hsrc
      have hreset := hcopy.changes (resetCopy_changes f hcopy.owned)
      rw [hcopy.val] at hreset
      have happend := hreset.each_append hjobs (grow (m.read View.file p).jobs.len)
      simp only [FileEdit.exec, hget]
      exact Changes.ptr ho (Changes.via happend rfl)
  | removeJob i => exact Changes.ptr ho (Changes.via (hjobs.each_removeAt i) rfl)

theorem execFile_changes (edits : List FileEdit) :
    ∀ {m : Mem} {p : Nat}, Owned fileShape m p →
      Changes fileShape m p (execFile grow edits m p) p (applyFile edits (fileShape.val m p)) := by
  induction edits with
  | nil => exact fun ho => ho.changes_refl
  | cons e edits ih =>
    intro m p ho
    have hone := e.exec_changes grow ho
    have hrest := ih hone.owned
    rw [hone.val] at hrest
    exact hone.trans hrest

/-! ## Operations -/

theorem file_ext {S : Type → Type} {P : Type} {x y : ProjectFile S P}
    (hheader : x.toFileHeader = y.toFileHeader) (hjobs : x.jobs = y.jobs) : x = y := by
  obtain ⟨⟩ := x
  obtain ⟨⟩ := y
  cases hheader
  cases hjobs
  rfl

/-- A job put into a slot of the file. -/
def putJob (i : Nat) (j : JobVal) (pf : FileVal) : FileVal := { pf with jobs := pf.jobs.set i j }

theorem putJob_self {pf : FileVal} {i : Nat} {j : JobVal} (h : pf.jobs[i]? = some j) :
    putJob i j pf = pf := by
  obtain ⟨hi, rfl⟩ := List.getElem?_eq_some_iff.mp h
  unfold putJob
  rw [List.set_getElem_self]

/-- A job of the file is changed where it is. -/
theorem slot_changes {p q i : Nat} {j : JobVal} (ho : Owned fileShape m p)
    (hget : (m.elems View.pointers (m.read View.file p).jobs)[i]? = some q)
    (hjob : Changes jobShape m q m' q j) :
    Changes fileShape m p m' p (putJob i j (fileShape.val m p)) :=
  Changes.ptr_same ho (Changes.via (ho.of_ptr.1.of_via.each_at hget hjob) rfl)

/-- The job a slot holds does not change when something is made elsewhere. -/
theorem slot_later {p q i : Nat} (ho : Owned fileShape m p) (ht : Touches m m' [])
    (hget : (m.elems View.pointers (m.read View.file p).jobs)[i]? = some q) :
    (m'.elems View.pointers (m'.read View.file p).jobs)[i]? = some q := by
  have hread : m'.read View.file p = m.read View.file p :=
    read_congr _ (ht.frame p ho.wf.1 fun hmem => (nomatch hmem))
  obtain ⟨-, helems⟩ := ho.of_ptr.1.of_via.each_fits ht fun hmem => (nomatch hmem)
  rw [hread, helems]
  exact hget

namespace State

/-- The file in memory is owned. -/
def Ok (s : State) : Prop := ∀ p, s.file = some p → Owned fileShape s.mem p

/-- The project as a value. -/
def view (s : State) : Project := { file := s.file.map s.value, disk := s.disk }

/-- What an operation leaves is what the operation on values leaves, and it returns the
same. -/
structure Refines (r : State × Result) (v : Project × Result) : Prop where
  ok : r.1.Ok
  view : r.1.view = v.1
  result : r.2 = v.2

variable {s : State} {p : Nat}

theorem Refines.loaded {pf : FileVal} {disk : Option FileVal} {result : Result}
    (hp : s.file = some p) (ho : Owned fileShape s.mem p) (hval : s.value p = pf)
    (hdisk : s.disk = disk) : Refines (s, result) (⟨some pf, disk⟩, result) where
  ok p' hp' := by
    rw [hp] at hp'
    cases hp'
    exact ho
  view := by
    unfold State.view
    rw [hp, hdisk, ← hval]
    rfl
  result := rfl

/-- Loading, or finding it loaded. -/
theorem project_spec (h : s.Ok) (env : Env) (projectID : String) :
    match s.project env projectID with
    | .error e => s.view.loaded env projectID = .error e
    | .ok (s', p) => s'.file = some p ∧ s'.disk = s.disk ∧ Owned fileShape s'.mem p ∧
        s.view.loaded env projectID = .ok (s'.value p) := by
  unfold project Project.loaded view
  cases hfile : s.file with
  | some p => exact ⟨hfile, rfl, h p hfile, rfl⟩
  | none =>
    dsimp only [Option.map_none]
    cases hload : loadFile env projectID s.disk with
    | error e => rfl
    | ok pf =>
      have hfresh := fresh_decodeFile env.grow (m := s.mem) pf
      exact ⟨rfl, rfl, hfresh.owned, congrArg Except.ok hfresh.val.symm⟩

/-- Whether a save goes through. -/
def saves (env : Env) : Bool := !(env.dirFails || env.saveFails)

/-- A value as a save stamps it. -/
def stamped (env : Env) (pf : FileVal) : FileVal :=
  { pf with toFileHeader := touchFile env pf.toFileHeader }

theorem saveFile_spec (env : Env) (ho : Owned fileShape s.mem p) :
    ∃ m, s.saveFile env p =
        ({ s with mem := m, disk := if saves env then some (fileShape.val m p) else s.disk },
          saves env) ∧
      Changes fileShape s.mem p m p (stamped env (s.value p)) := by
  unfold saveFile saves stamped touchFile
  cases hdir : env.dirFails with
  | true => exact ⟨s.mem, rfl, ho.changes_refl⟩
  | false =>
    have hc := (FileEdit.fields (touchFile env)).exec_changes env.grow ho
    unfold FileEdit.exec FileEdit.apply touchFile at hc
    rw [hdir] at hc
    refine ⟨_, ?_, hc⟩
    cases hsave : env.saveFails
    · simp [value]
    · simp

theorem mutate_refines (h : s.Ok) (env : Env) (projectID : String) (op : FileOp) :
    Refines (s.mutate env projectID op) (s.view.mutate env projectID op) := by
  have hproject := project_spec h env projectID
  unfold mutate Project.mutate
  cases hs : s.project env projectID with
  | error e =>
    rw [hs] at hproject
    rw [hproject]
    exact ⟨h, rfl, rfl⟩
  | ok loaded =>
    obtain ⟨s', p⟩ := loaded
    rw [hs] at hproject
    obtain ⟨hfile, hdisk, ho, hload⟩ := hproject
    rw [hload]
    dsimp only
    have hclone := fresh_cloneFile env.grow ho
    obtain ⟨ho', hval, hapart⟩ := hclone.apart ho
    have hvalue : ({ s' with mem := (cloneFile env.grow s'.mem p).1 } : State).value p =
        s'.value p := hval
    rw [hvalue]
    cases hop : op (s'.value p) with
    | error e => exact .loaded rfl hclone.owned hclone.val hdisk
    | ok edits =>
      dsimp only
      have hedits := execFile_changes env.grow edits ho'
      -- the clone lies apart from the file, so neither the edits nor the save reach it
      obtain ⟨hprev, hprevval, -, hapart'⟩ := hedits.apart hclone.owned hapart
      obtain ⟨m, hsave, hc⟩ := saveFile_spec env (s :=
        { s' with mem := execFile env.grow edits (cloneFile env.grow s'.mem p).1 p }) hedits.owned
      obtain ⟨hprev', hprevval', -⟩ := hc.apart hprev hapart'
      have hnew : fileShape.val m p = stamped env (applyFile edits (s'.value p)) := by
        rw [hc.val]
        exact congrArg (stamped env) (hedits.val.trans (congrArg (applyFile edits) hval))
      rw [hsave]
      unfold Project.save saves
      cases hfails : env.dirFails || env.saveFails with
      | true => exact .loaded rfl hprev' (hprevval'.trans (hprevval.trans hclone.val)) hdisk
      | false => exact .loaded hfile hc.owned hnew (congrArg some hnew)

/-- A job apart from the file, such as the copy made for the rollback, is put into a slot. -/
theorem restore_spec {prev : Nat} (i : Nat) (hprev : Owned jobShape s.mem prev)
    (ho : Owned fileShape s.mem p)
    (hapart : ∀ a ∈ jobShape.foot s.mem prev, a ∉ fileShape.foot s.mem p) :
    Owned fileShape (s.restore p i prev).mem p ∧
      (s.restore p i prev).value p =
        putJob i (jobShape.val s.mem prev) (s.value p) := by
  obtain ⟨hjobs, hnot⟩ := ho.of_ptr
  have hp : p < s.mem.next := ho.wf.1
  have hpair := hprev.pair hjobs.of_via fun a ha hmem =>
    hapart a hmem (List.mem_cons_of_mem _ ha)
  obtain ⟨hput, hval, hsub⟩ := hpair.each_put i
  have harr : p ≠ (s.mem.read View.file p).jobs.arr := fun heq =>
    hnot (List.mem_cons.mpr (.inl heq))
  have hread : (s.restore p i prev).mem.read View.file p = s.mem.read View.file p :=
    read_congr _ (write_cell_other _ _ _ harr)
  refine ⟨Owned.ptr hp (by rw [hread]; exact hput.via) ?_, ?_⟩
  · rw [hread]
    intro hmem
    rcases List.mem_append.mp (hsub p hmem) with hmem | hmem
    · exact hapart p hmem List.mem_cons_self
    · exact hnot hmem
  · have hjobsval : ((s.restore p i prev).value p).jobs =
        (Shape.each View.pointers jobShape).val (s.restore p i prev).mem
          (s.mem.read View.file p).jobs := by
      rw [← hread]
      rfl
    have hheader : ((s.restore p i prev).value p).toFileHeader = (s.value p).toFileHeader := by
      show ((s.restore p i prev).mem.read View.file p).toFileHeader = _
      rw [hread]
      rfl
    exact file_ext hheader (hjobsval.trans hval)

theorem mutateJob_refines (h : s.Ok) (env : Env) (projectID jobID : String) (op : JobOp) :
    Refines (s.mutateJob env projectID jobID op) (s.view.mutateJob env projectID jobID op) := by
  have hproject := project_spec h env projectID
  unfold mutateJob Project.mutateJob
  cases hs : s.project env projectID with
  | error e =>
    rw [hs] at hproject
    rw [hproject]
    exact ⟨h, rfl, rfl⟩
  | ok loaded =>
    obtain ⟨s', p⟩ := loaded
    rw [hs] at hproject
    obtain ⟨hfile, hdisk, ho, hload⟩ := hproject
    rw [hload]
    dsimp only
    have hjobs : (s'.value p).jobs =
        (s'.mem.elems View.pointers (s'.mem.read View.file p).jobs).map (jobShape.val s'.mem) :=
      rfl
    have hfind : ((s'.value p).jobs.findIdx? fun j => j.id = jobID) =
        (s'.mem.elems View.pointers (s'.mem.read View.file p).jobs).findIdx? fun q =>
          (s'.mem.read View.job q).id = jobID := by
      rw [hjobs, List.findIdx?_map]
      rfl
    rw [hfind]
    cases hidx : (s'.mem.elems View.pointers (s'.mem.read View.file p).jobs).findIdx? fun q =>
        (s'.mem.read View.job q).id = jobID with
    | none => exact .loaded hfile ho rfl hdisk
    | some i =>
      dsimp only
      have hslot : (s'.value p).jobs[i]? =
          (s'.mem.elems View.pointers (s'.mem.read View.file p).jobs)[i]?.map
            (jobShape.val s'.mem) := by
        rw [hjobs, List.getElem?_map]
      rw [hslot]
      cases hget : (s'.mem.elems View.pointers (s'.mem.read View.file p).jobs)[i]? with
      | none => exact .loaded hfile ho rfl hdisk
      | some q =>
        dsimp only [Option.map_some]
        rw [hget, Option.map_some] at hslot
        have hjob := ho.of_ptr.1.of_via.of_each.1.list_mem (List.mem_of_getElem? hget)
        have hcopy := fresh_copyJob env.grow hjob
        obtain ⟨hjob', hjobval, -⟩ := hcopy.apart hjob
        obtain ⟨ho', hval, hapart⟩ := hcopy.apart ho
        rw [hjobval]
        cases hop : op (jobShape.val s'.mem q) with
        | error e =>
          obtain ⟨hback, hbackval⟩ := restore_spec
            (s := { s' with mem := (copyJob env.grow s'.mem q).1 }) i hcopy.owned ho' hapart
          refine .loaded hfile hback ?_ hdisk
          rw [hbackval, hcopy.val]
          exact (congrArg (putJob i (jobShape.val s'.mem q)) hval).trans (putJob_self hslot)
        | ok edits =>
          dsimp only
          have hedits := execAll_changes env.grow (edits ++ [touchJob env.now]) hjob'
          rw [hjobval] at hedits
          have hfileedits := slot_changes ho' (slot_later ho hcopy.touches hget) hedits
          rw [hval] at hfileedits
          generalize execAll env.grow (edits ++ [touchJob env.now]) (copyJob env.grow s'.mem q).1 q
            = m₁ at hedits hfileedits ⊢
          generalize applyAll (edits ++ [touchJob env.now]) (jobShape.val s'.mem q) = j at *
          -- the copy lies apart from the file, so neither the edits nor the save reach it
          obtain ⟨hprev, hprevval, -, hapart'⟩ := hfileedits.apart hcopy.owned hapart
          obtain ⟨m₂, hsave, hc⟩ := saveFile_spec env (s := { s' with mem := m₁ })
            hfileedits.owned
          obtain ⟨hprev', hprevval', -, hapart''⟩ := hc.apart hprev hapart'
          have hnew : fileShape.val m₂ p = stamped env (putJob i j (s'.value p)) := by
            rw [hc.val]
            exact congrArg (stamped env) hfileedits.val
          rw [hedits.val, hsave]
          unfold Project.save saves
          cases hfails : env.dirFails || env.saveFails with
          | true =>
            obtain ⟨hback, hbackval⟩ := restore_spec (s := { s' with mem := m₂ }) i hprev' hc.owned
              hapart''
            have hold : putJob i (jobShape.val s'.mem q) (stamped env (putJob i j (s'.value p))) =
                stamped env (s'.value p) := by
              have hself := congrArg (stamped env) (putJob_self hslot)
              unfold stamped putJob at hself ⊢
              dsimp only at hself ⊢
              rwa [List.set_set]
            rw [hprevval', hprevval, hcopy.val] at hbackval
            exact .loaded hfile hback
              (hbackval.trans ((congrArg (putJob i _) hnew).trans hold)) hdisk
          | false => exact .loaded hfile hc.owned hnew (congrArg some hnew)

/-- The store keeps what the project as a value keeps, whatever comes. -/
theorem exec_refines (h : s.Ok) (env : Env) (projectID : String) (op : Op) :
    Refines (s.exec env projectID op) (s.view.exec env projectID op) := by
  cases op with
  | createJob hubID projectName d createdBy =>
    unfold exec Project.exec
    dsimp only
    cases Production.createJob env.now hubID projectName d createdBy with
    | error e => exact ⟨h, rfl, rfl⟩
    | ok op => exact mutate_refines h env projectID op
  | duplicateJob hubID projectName jobID createdBy =>
    unfold exec Project.exec
    dsimp only
    cases Production.duplicateJob env.now hubID projectName jobID createdBy with
    | error e => exact ⟨h, rfl, rfl⟩
    | ok op => exact mutate_refines h env projectID op
  | deleteJob jobID =>
    unfold exec Project.exec
    dsimp only
    cases Production.deleteJob jobID with
    | error e => exact ⟨h, rfl, rfl⟩
    | ok op => exact mutate_refines h env projectID op
  | onJob jobID c =>
    unfold exec Project.exec
    dsimp only
    cases c.closure env.now with
    | error e => exact ⟨h, rfl, rfl⟩
    | ok op => exact mutateJob_refines h env projectID jobID op
  | read =>
    have hproject := project_spec h env projectID
    unfold exec Project.exec
    dsimp only
    cases hs : s.project env projectID with
    | error e =>
      rw [hs] at hproject
      rw [hproject]
      exact ⟨h, rfl, rfl⟩
    | ok loaded =>
      obtain ⟨s', p⟩ := loaded
      rw [hs] at hproject
      obtain ⟨hfile, hdisk, ho, hload⟩ := hproject
      rw [hload]
      exact .loaded hfile ho rfl hdisk
  | reset => exact ⟨fun p hp => (nomatch hp), rfl, rfl⟩
  | deleteProject r => exact ⟨fun p hp => (nomatch hp), rfl, rfl⟩

theorem init_ok : init.Ok := fun _ hp => (nomatch hp)

/-- The run the project as a value takes with a run of the store. -/
theorem run_refines {projectID : String} {es : List Event} {s t : State}
    (hrun : Lib.Run (Happens projectID) Lib.always s es t) (hs : s.Ok) :
    t.Ok ∧ Lib.Run (Project.Happens projectID) Lib.always s.view es t.view := by
  induction hrun with
  | nil => exact ⟨hs, .nil⟩
  | snoc _ _ hstep ih =>
    obtain ⟨hok, hvals⟩ := ih
    obtain ⟨hok', hview, -⟩ := exec_refines hok _ projectID _
    rw [show _ = _ from hstep] at hok' hview
    exact ⟨hok', .snoc hvals trivial hview.symm⟩

end State

end Production
