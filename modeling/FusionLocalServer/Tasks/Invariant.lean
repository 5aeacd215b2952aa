import FusionLocalServer.Tasks.Store

/-!
# Invariants of a project of the task store

What each mutation comes to when nothing refuses it, as one lemma for each, with what its
checks have established. A property of files that holds of a new one, and is kept by the
header's changes and by each mutation, then holds of the file in memory and of the one on
disk in every state of the store (`FileRule.holds`).
-/

namespace Tasks

open Lib (Time trimSpace bind_ok refuse_bind_iff findIdx_ok)
open FusionLocalServer.Storage

/-! ## Writes to several tasks -/

/-- Writes to one task change it where it is. -/
theorem applyFile_onTask (i : Nat) (edits : List TaskEdit) :
    ∀ pf : FileVal, applyFile (edits.map (.onTask i)) pf =
      { pf with tasks := pf.tasks.modify i (applyTask edits) } := by
  induction edits with
  | nil =>
    intro pf
    have hid : applyTask [] = id := rfl
    rw [hid, List.modify_id]
    rfl
  | cons e edits ih =>
    intro pf
    have hcons := ih (FileEdit.apply pf (.onTask i e))
    have hmodify : (pf.tasks.modify i fun t => e.apply t).modify i (applyTask edits) =
        pf.tasks.modify i (applyTask (e :: edits)) := List.modify_modify_eq ..
    exact hcons.trans (congrArg (fun tasks => { pf with tasks }) hmodify)

/-- Changes to distinct places of a list. -/
theorem getElem?_modifyEach {α : Type} (f : α → α) {places : List Nat} (h : places.Nodup) :
    ∀ (xs : List α) (k : Nat), (places.foldl (fun xs i => xs.modify i f) xs)[k]? =
      if k ∈ places then xs[k]?.map f else xs[k]? := by
  induction places with
  | nil => exact fun _ _ => rfl
  | cons i places ih =>
    intro xs k
    obtain ⟨hi, hrest⟩ := List.nodup_cons.mp h
    rw [List.foldl_cons, ih hrest, List.getElem?_modify]
    by_cases hk : k = i
    · subst hk
      simp [hi]
    · have hki : ¬ i = k := fun heq => hk heq.symm
      simp [hk, hki]

/-- What the changes keep of each element, they keep of the list. -/
theorem map_modifyEach {α β : Type} {f : α → α} {g : α → β} (h : ∀ x, g (f x) = g x)
    (places : List Nat) :
    ∀ xs : List α, (places.foldl (fun xs i => xs.modify i f) xs).map g = xs.map g := by
  induction places with
  | nil => exact fun _ => rfl
  | cons i places ih =>
    intro xs
    rw [List.foldl_cons, ih]
    refine List.ext_getElem? fun k => ?_
    rw [List.getElem?_map, List.getElem?_map, List.getElem?_modify]
    cases xs[k]? with
    | none => rfl
    | some x =>
      show some (g (if i = k then f x else x)) = some (g x)
      split
      · rw [h]
      · rfl

/-- Writes to some of the tasks, which change each of them where it is. -/
theorem applyFile_places (e : TaskEdit) (places : List Nat) :
    ∀ pf : FileVal, applyFile (places.map fun i => .onTask i e) pf =
      { pf with tasks := places.foldl (fun ts i => ts.modify i fun t => e.apply t) pf.tasks } := by
  induction places with
  | nil => exact fun _ => rfl
  | cons i places ih => exact fun pf => ih (FileEdit.apply pf (.onTask i e))

/-- A write to each of the tasks. -/
theorem applyFile_each (e : TaskEdit) (pf : FileVal) :
    applyFile ((List.range pf.tasks.length).map fun k => .onTask k e) pf =
      { pf with tasks := pf.tasks.map fun t => e.apply t } := by
  rw [applyFile_places]
  congr 1
  refine List.ext_getElem? fun k => ?_
  rw [getElem?_modifyEach _ List.nodup_range, List.getElem?_map]
  split
  · rfl
  · next hk =>
    rw [List.mem_range, Nat.not_lt] at hk
    rw [List.getElem?_eq_none_iff.mpr hk]
    rfl

/-! ## What the mutations come to -/

section Mutations

variable {now : Time} {pf : FileVal} {c : Mutation}

/-- The check of a draft or a patched task, on its fields. -/
def FieldsOk (t : TaskVal) : Prop :=
  validateFields t.title t.description t.status t.priority t.dueDate t.docRefs
    t.schedule = .ok ()

theorem validateEach_ok {selfID : String} {deps : List String}
    (h : validateEach pf selfID deps = .ok ()) :
    ∀ dep ∈ deps, dep ≠ selfID ∧ ∃ t ∈ pf.tasks, t.id = dep := by
  induction deps with
  | nil => exact fun _ hdep => (nomatch hdep)
  | cons dep deps ih =>
    rw [validateEach, refuse_bind_iff, refuse_bind_iff] at h
    obtain ⟨hself, hfind, h⟩ := h
    intro d hd
    rcases List.mem_cons.mp hd with rfl | hd
    · obtain ⟨t, ht⟩ := Option.ne_none_iff_exists'.mp hfind
      obtain ⟨hmem, hid⟩ := Lib.find_ok ht
      exact ⟨hself, t, hmem, hid⟩
    · exact ih h d hd

theorem validateDependsOn_ok {selfID : String} {deps : List String}
    (h : validateDependsOn pf selfID deps = .ok ()) :
    (∀ dep ∈ deps, dep ≠ selfID ∧ ∃ t ∈ pf.tasks, t.id = dep) ∧
      dependsOnCycle pf selfID deps = false := by
  rw [validateDependsOn, refuse_bind_iff] at h
  obtain ⟨⟨⟩, heach, h⟩ := bind_ok h.2
  rw [Lib.refuse_iff, Bool.not_eq_true] at h
  exact ⟨validateEach_ok heach, h⟩

theorem nodup_normalizeDependsOn (deps : List String) : (normalizeDependsOn deps).Nodup := by
  unfold normalizeDependsOn
  refine List.foldlRecOn (motive := List.Nodup) deps _ List.nodup_nil fun out hout d _ => ?_
  dsimp only
  split
  · next hnew =>
    refine List.nodup_append.mpr ⟨hout, List.nodup_singleton _, fun a ha b hb heq => ?_⟩
    rw [List.mem_singleton] at hb
    exact hnew.2 (hb ▸ heq ▸ ha)
  · exact hout

/-- `Create` appends a task whose number is the file's next. -/
theorem create_ok {hubID projectName : String} {d : Draft} {createdBy : UserRef} {op : FileOp}
    (h : create now hubID projectName d createdBy = .ok op) (hop : op pf = .ok c) :
    ∃ t : TaskVal, t.id = taskId pf.nextTaskId ∧ t.num = pf.nextTaskId ∧ t.dependsOn.Nodup ∧
      (∀ dep ∈ t.dependsOn, ∃ u ∈ pf.tasks, u.id = dep) ∧
      (∃ refs, FieldsOk { t with docRefs := refs } ∧ t.docRefs = normalizeDocRefs refs) ∧
      applyFile c.edits pf =
        { pf with
          toFileHeader := { pf.toFileHeader with
            nextTaskId := pf.nextTaskId + 1, hubId := hubID, projectName := projectName }
          tasks := pf.tasks ++ [t] } := by
  obtain ⟨⟨⟩, hfields, h⟩ := bind_ok h
  cases h
  dsimp only at hop
  rw [refuse_bind_iff] at hop
  obtain ⟨⟨⟩, hdeps, hop⟩ := bind_ok hop.2
  cases hop
  obtain ⟨hexist, -⟩ := validateDependsOn_ok hdeps
  refine ⟨newTask _ (normalizeDocRefs d.docRefs) (normalizeDependsOn d.dependsOn), ?_, ?_,
    nodup_normalizeDependsOn _, fun dep hdep => (hexist dep hdep).2, ⟨d.docRefs, ?_, rfl⟩, rfl⟩
  · rfl
  · rfl
  · exact hfields

/-- `Update` changes one task. -/
theorem update_ok {taskID : String} {p : Patch} (hop : update now taskID p pf = .ok c) :
    ∃ i t t', pf.tasks[i]? = some t ∧ t.id = taskID ∧ t'.id = t.id ∧ t'.num = t.num ∧
      (t'.dependsOn = t.dependsOn ∨
        t'.dependsOn.Nodup ∧ validateDependsOn pf t.id t'.dependsOn = .ok ()) ∧
      (∃ refs, FieldsOk { t' with docRefs := refs } ∧
        (t'.docRefs = refs ∨ t'.docRefs = normalizeDocRefs refs)) ∧
      applyFile c.edits pf = { pf with tasks := pf.tasks.set i t' } := by
  unfold update at hop
  split at hop
  · cases hop
  · next i hi =>
    obtain ⟨t, hget, hid⟩ := findIdx_ok hi
    rw [hget] at hop
    obtain ⟨⟨⟩, hfields, hop⟩ := bind_ok hop
    obtain ⟨⟨⟩, hdeps, hop⟩ := bind_ok hop
    cases hop
    have hset : ∀ f, pf.tasks.modify i f = pf.tasks.set i (f t) := by
      intro f
      rw [List.modify_eq_set_getElem?, hget]
      rfl
    refine ⟨i, t, _, hget, of_decide_eq_true hid, ?_, ?_, ?_, ⟨p.docRefs.getD t.docRefs, ?_, ?_⟩,
      (applyFile_onTask i _ pf).trans (congrArg (fun tasks => { pf with tasks }) (hset _))⟩
    all_goals
      cases hd : p.dependsOn <;> cases hr : p.docRefs <;> rw [hd] at hdeps <;>
        rw [hr] at hfields
    all_goals first
      | rfl
      | exact .inl rfl
      | exact .inr rfl
      | exact .inr ⟨nodup_normalizeDependsOn _, hdeps⟩
      | exact hfields

/-- `Delete` takes a task out, and its id out of what the others depend on. -/
theorem delete_ok {taskID : String} (hop : delete taskID pf = .ok c) :
    ∃ i t, pf.tasks[i]? = some t ∧ t.id = taskID ∧
      applyFile c.edits pf =
        { pf with tasks := (pf.tasks.eraseIdx i).map fun t =>
            TaskEdit.apply t (.dropDependency taskID) } := by
  unfold delete at hop
  split at hop
  · cases hop
  · next i hi =>
    cases hop
    obtain ⟨t, hget, hid⟩ := findIdx_ok hi
    exact ⟨i, t, hget, of_decide_eq_true hid,
      applyFile_each _ { pf with tasks := pf.tasks.eraseIdx i }⟩

/-- The places of the tasks listed, which have a schedule; there is one for each id. -/
theorem findScheduled_ok {ids : List String} :
    ∀ {places : List Nat}, findScheduled pf ids = .ok places →
      (∀ i ∈ places, ∃ t, pf.tasks[i]? = some t ∧ t.id ∈ ids ∧ t.startDate ≠ "") ∧
        (∀ id ∈ ids, ∃ i ∈ places, ∃ t, pf.tasks[i]? = some t ∧ t.id = id) ∧
        (ids.Nodup → places.Nodup) := by
  induction ids with
  | nil =>
    intro places h
    cases h
    exact ⟨fun _ hi => (nomatch hi), fun _ hid => (nomatch hid), fun _ => List.nodup_nil⟩
  | cons id ids ih =>
    intro places h
    rw [findScheduled] at h
    split at h
    · cases h
    · next i hi =>
      obtain ⟨t, hget, hid⟩ := findIdx_ok hi
      replace hid : t.id = id := of_decide_eq_true hid
      rw [refuse_bind_iff, hget] at h
      obtain ⟨hscheduled, h⟩ := h
      obtain ⟨rest, hrest, h⟩ := bind_ok h
      cases h
      obtain ⟨hlisted, hfound, hnodup⟩ := ih hrest
      have hdate : t.startDate ≠ "" := fun hempty => hscheduled (congrArg some hempty)
      refine ⟨fun k hk => ?_, fun id' hid' => ?_, fun hids => ?_⟩
      · rcases List.mem_cons.mp hk with rfl | hk
        · exact ⟨t, hget, hid ▸ List.mem_cons_self, hdate⟩
        · obtain ⟨u, hu, hmem, hdate'⟩ := hlisted k hk
          exact ⟨u, hu, List.mem_cons_of_mem _ hmem, hdate'⟩
      · rcases List.mem_cons.mp hid' with rfl | hid'
        · exact ⟨i, List.mem_cons_self, t, hget, hid⟩
        · obtain ⟨k, hk, found⟩ := hfound id' hid'
          exact ⟨k, List.mem_cons_of_mem _ hk, found⟩
      · obtain ⟨hnew, hids⟩ := List.nodup_cons.mp hids
        refine List.nodup_cons.mpr ⟨fun hmem => hnew ?_, hnodup hids⟩
        obtain ⟨u, hu, hlisted', -⟩ := hlisted i hmem
        rw [hget] at hu
        cases hu
        rwa [← hid]

/-- `ShiftTasks` moves the schedules of some tasks. -/
theorem shiftTasks_ok {taskIDs : List String} {days : Int} {op : FileOp}
    (h : shiftTasks now taskIDs days = .ok op) (hop : op pf = .ok c) :
    ∃ places, findScheduled pf (normalizeDependsOn taskIDs) = .ok places ∧
      applyFile c.edits pf =
        { pf with tasks := places.foldl (fun ts i => ts.modify i fun t =>
            { t with toTaskHeader := shiftFields now days t.toTaskHeader }) pf.tasks } := by
  unfold shiftTasks at h
  rw [refuse_bind_iff] at h
  obtain ⟨-, h⟩ := h
  dsimp only at h
  rw [refuse_bind_iff] at h
  cases h.2
  obtain ⟨places, hplaces, hop⟩ := bind_ok hop
  cases hop
  exact ⟨places, hplaces, applyFile_places _ places pf⟩

end Mutations

/-! ## Properties of files -/

/-- The property holds of a new file, and is kept by whatever is done to a file, if the
condition admits it. -/
structure FileRule (P : FileVal → Prop) (ok : FileVal → Event → Prop) : Prop where
  new : ∀ env projectID, P (freshFile env projectID)
  /-- The header is repaired or stamped. -/
  header : ∀ (pf : FileVal) (h : FileHeader),
    h.nextTaskId = pf.nextTaskId ∨ pf.nextTaskId < 1 ∧ h.nextTaskId = 1 → P pf →
      P { pf with toFileHeader := h }
  mutation : ∀ {e : Event} {op : FileOp} {pf : FileVal} {c : Mutation},
    e.op.mutation e.env.now = some (.ok op) → op pf = .ok c →
      (e.env.dirFails || e.env.saveFails) = false → ok pf e → P pf → P (applyFile c.edits pf)

/-- The property holds of the file in memory and of the one on disk. -/
def Holds (P : FileVal → Prop) (p : Project) : Prop :=
  ∀ pf, p.file = some pf ∨ p.disk = some pf → P pf

/-- The condition, of the file the event finds. -/
def Admits (projectID : String) (ok : FileVal → Event → Prop) (p : Project) (e : Event) : Prop :=
  ∀ pf, p.loaded e.env projectID = .ok pf → ok pf e

section Rule

variable {P : FileVal → Prop} {ok : FileVal → Event → Prop} {p : Project} {projectID : String}

theorem FileRule.loaded (h : FileRule P ok) (hp : Holds P p) {env : Env} {pf : FileVal}
    (hload : p.loaded env projectID = .ok pf) : P pf := by
  unfold Project.loaded at hload
  split at hload
  · next hfile =>
    cases hload
    exact hp pf (.inl hfile)
  · unfold loadFile at hload
    split at hload
    · cases hload
    · split at hload
      · cases hload
        exact h.new env projectID
      · next old hdisk =>
        split at hload
        · cases hload
        · cases hload
          refine h.header old _ ?_ (hp old (.inr hdisk))
          unfold repairFile
          dsimp only
          split
          · next hlow => exact .inr ⟨hlow, rfl⟩
          · exact .inl rfl

theorem FileRule.stamped (h : FileRule P ok) (env : Env) {pf : FileVal} (hpf : P pf) :
    P (Project.stamped env pf) := by
  refine h.header pf _ (.inl ?_) hpf
  unfold touchFile
  split <;> rfl

/-- One operation keeps the property. -/
theorem FileRule.exec (h : FileRule P ok) (hp : Holds P p) (e : Event)
    (hok : Admits projectID ok p e) : Holds P (p.exec e.env projectID e.op).1 := by
  have hset : ∀ {pf}, P pf → Holds P { p with file := some pf } := by
    intro pf hpf pf' hpf'
    rcases hpf' with hpf' | hpf'
    · cases hpf'
      exact hpf
    · exact hp pf' (.inr hpf')
  unfold Project.exec
  split
  · exact hp
  · next fop hfop =>
    unfold Project.mutate
    split
    · exact hp
    · next pf hload =>
      have hpf := h.loaded hp hload
      split
      · exact hset hpf
      · next c hc =>
        dsimp only
        split
        · exact hset hpf
        · next hsaves =>
          have hnew := h.stamped e.env
            (h.mutation hfop hc (Bool.eq_false_iff.mpr hsaves) (hok pf hload) hpf)
          intro pf' hpf'
          rcases hpf' with hpf' | hpf' <;>
          · cases hpf'
            exact hnew
  · split
    · intro pf hpf
      rcases hpf with hpf | hpf
      · cases hpf
      · exact hp pf (.inr hpf)
    · intro pf hpf
      rcases hpf with hpf | hpf
      · cases hpf
      · dsimp only at hpf
        split at hpf
        · cases hpf
        · exact hp pf (.inr hpf)
    · split
      · exact hp
      · next pf hload => exact hset (h.loaded hp hload)

/-- The property holds of every file in every state of the store there can be. -/
theorem FileRule.holds (h : FileRule P ok) {es : List Event} {s : State}
    (hrun : Lib.Run (State.Happens projectID) (fun s e => Admits projectID ok s.view e)
      State.init es s) : Holds P s.view := by
  have hvals : Lib.Run (Project.Happens projectID) (Admits projectID ok) State.init.view es s.view :=
    (State.run_refines hrun State.init_ok).2
  refine hvals.invariant (P := Holds P) (fun pf hpf => ?_) fun p e p' hp hok hstep => ?_
  · rcases hpf with hpf | hpf <;> cases hpf
  · rw [← show (p.exec e.env projectID e.op).1 = p' from hstep]
    exact h.exec hp e hok

end Rule

/-! ## Runs of calls -/

/-- Calls made all at one time, with every save going through. -/
def calls (ops : List Op) : List Event := ops.map fun op => { env := { now := 1 }, op }

/-- Where the events lead. -/
def after (projectID : String) (es : List Event) (s : State) : State :=
  es.foldl (fun s e => (s.exec e.env projectID e.op).1) s

theorem run_after (projectID : String) (es : List Event) (s : State) :
    Lib.Run (State.Happens projectID) Lib.always s es (after projectID es s) :=
  Lib.Run.foldl es (fun _ _ _ => trivial) s

end Tasks
