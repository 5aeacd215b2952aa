import FusionLocalServer.Tasks.Invariant

/-!
# What tasks depend on

`DepsOk` is what the tasks of every project are at all times: their ids are distinct, each
task depends on other tasks of the project, on each of them once, and never on itself by
way of others.

`TasksOk` adds that a task's id is made from its number, which is below the counter; a task
that is created is then on no other's list. A list of dependencies that is replaced has been
searched for a path back to the task, on the project as it was; a path that comes back to the
task for the first time is one of the project as it was.
-/

namespace Tasks

open Lib.Graph (Acyclic Link Before)
open FusionLocalServer.Storage

/-- An edge from each task to each it depends on. -/
def depEdges (tasks : List TaskVal) : List (String × String) :=
  tasks.flatMap fun t => t.dependsOn.map fun dep => (t.id, dep)

/-- What the tasks of a project depend on is in order. -/
structure DepsOk (tasks : List TaskVal) : Prop where
  ids : (tasks.map (·.id)).Nodup
  exist : ∀ t ∈ tasks, ∀ dep ∈ t.dependsOn, ∃ u ∈ tasks, u.id = dep
  irreflexive : ∀ t ∈ tasks, t.id ∉ t.dependsOn
  distinct : ∀ t ∈ tasks, t.dependsOn.Nodup
  acyclic : Acyclic (depEdges tasks)

/-- The dependencies are in order, and the ids are those of the counter. -/
structure TasksOk (pf : FileVal) : Prop extends DepsOk pf.tasks where
  numbered : ∀ t ∈ pf.tasks, t.id = taskId t.num ∧ t.num < pf.nextTaskId

theorem mem_depEdges {tasks : List TaskVal} {a b : String} :
    (a, b) ∈ depEdges tasks ↔ ∃ t ∈ tasks, t.id = a ∧ b ∈ t.dependsOn := by
  unfold depEdges
  simp only [List.mem_flatMap, List.mem_map, Prod.mk.injEq]
  constructor
  · rintro ⟨t, ht, dep, hdep, rfl, rfl⟩
    exact ⟨t, ht, rfl, hdep⟩
  · rintro ⟨t, ht, rfl, hb⟩
    exact ⟨t, ht, b, hb, rfl, rfl⟩

/-- An id names one task. -/
theorem eq_of_id {tasks : List TaskVal} (h : (tasks.map (·.id)).Nodup) {t u : TaskVal}
    (ht : t ∈ tasks) (hu : u ∈ tasks) (hid : t.id = u.id) : t = u :=
  List.inj_on_of_nodup_map h ht hu hid

/-! ## The search for a cycle -/

section Search

variable {pf : FileVal}

theorem mem_dependencies (h : (pf.tasks.map (·.id)).Nodup) {a b : String}
    (hedge : (a, b) ∈ depEdges pf.tasks) : b ∈ dependencies pf a := by
  obtain ⟨t, ht, hid, hb⟩ := mem_depEdges.mp hedge
  unfold dependencies
  cases hfind : findTask pf a with
  | none => exact absurd hid (of_decide_eq_false (by simpa using List.find?_eq_none.mp hfind t ht))
  | some u =>
    obtain ⟨hu, huid⟩ := Lib.find_ok hfind
    rw [← eq_of_id h ht hu (hid.trans huid.symm)]
    exact hb

/-- The search finds every path that leads back to the task. -/
theorem dependsOnCycle_false {selfID : String} {deps : List String}
    (h : dependsOnCycle pf selfID deps = false) :
    ∀ dep ∈ deps, ¬ Relation.ReflTransGen (Before (dependencies pf) selfID) dep selfID := by
  have hnodes : ∀ x, x ∈ pf.tasks.map (·.id) ∨ dependencies pf x = [] := by
    intro x
    unfold dependencies
    cases hfind : findTask pf x with
    | none => exact .inr rfl
    | some t =>
      obtain ⟨ht, rfl⟩ := Lib.find_ok hfind
      exact .inl (List.mem_map_of_mem ht)
  have hpushes : Lib.Graph.pushes (dependencies pf) (pf.tasks.map (·.id)) [selfID] ≤
      (pf.tasks.map fun t => (dependencies pf t.id).length).sum := by
    unfold Lib.Graph.pushes
    rw [List.map_map]
    refine List.sum_le_sum fun t _ => ?_
    dsimp only [Function.comp_apply]
    split <;> omega
  intro dep hdep
  refine Lib.Graph.not_before_of_walk hnodes _ _ _ h ?_ (fun x hx hne => ?_) dep (.inl ?_)
  · rw [List.length_reverse]
    omega
  · exact absurd (List.mem_singleton.mp hx) hne
  · exact List.mem_reverse.mpr hdep

end Search

/-! ## Writes -/

section Writes

variable {pf : FileVal}

/-- What of a task matters here. -/
def node (t : TaskVal) : String × Int × List String := (t.id, t.num, t.dependsOn)

/-- Only ids, numbers and dependencies matter, and the counter. -/
theorem TasksOk.of_nodes (h : TasksOk pf) {pf' : FileVal}
    (hnodes : pf'.tasks.map node = pf.tasks.map node)
    (hnext : ∀ t ∈ pf.tasks, t.num < pf.nextTaskId → t.num < pf'.nextTaskId) : TasksOk pf' := by
  have hback : ∀ t ∈ pf'.tasks, ∃ u ∈ pf.tasks, node u = node t := fun t ht =>
    List.mem_map.mp (hnodes ▸ List.mem_map_of_mem ht)
  have hforth : ∀ u ∈ pf.tasks, ∃ t ∈ pf'.tasks, node t = node u := fun u hu =>
    List.mem_map.mp (hnodes ▸ List.mem_map_of_mem hu)
  have hnode : ∀ {t u : TaskVal}, node t = node u →
      t.id = u.id ∧ t.num = u.num ∧ t.dependsOn = u.dependsOn := by
    intro t u heq
    simpa [node] using heq
  have hids : pf'.tasks.map (·.id) = pf.tasks.map (·.id) := by
    have := congrArg (List.map Prod.fst) hnodes
    rwa [List.map_map, List.map_map] at this
  have hedges : depEdges pf'.tasks = depEdges pf.tasks := by
    have := congrArg (List.flatMap fun x : String × Int × List String =>
      x.2.2.map fun dep => (x.1, dep)) hnodes
    rwa [List.flatMap_map, List.flatMap_map] at this
  refine ⟨⟨hids ▸ h.ids, fun t ht dep hdep => ?_, fun t ht => ?_, fun t ht => ?_,
    hedges ▸ h.acyclic⟩, fun t ht => ?_⟩
  all_goals
    obtain ⟨u, hu, heq⟩ := hback t ht
    obtain ⟨hid, hnum, hdeps⟩ := hnode heq
  · rw [← hdeps] at hdep
    obtain ⟨v, hv, rfl⟩ := h.exist u hu dep hdep
    obtain ⟨w, hw, heq'⟩ := hforth v hv
    exact ⟨w, hw, (hnode heq').1⟩
  · rw [← hid, ← hdeps]
    exact h.irreflexive u hu
  · rw [← hdeps]
    exact h.distinct u hu
  · rw [← hid, ← hnum]
    exact ⟨(h.numbered u hu).1, hnext u hu (h.numbered u hu).2⟩

/-- A task is appended that has the next number and depends on tasks there are. -/
theorem TasksOk.append (h : TasksOk pf) {t : TaskVal} {header : FileHeader}
    (hid : t.id = taskId pf.nextTaskId) (hnum : t.num = pf.nextTaskId)
    (hnodup : t.dependsOn.Nodup) (hexist : ∀ dep ∈ t.dependsOn, ∃ u ∈ pf.tasks, u.id = dep)
    (hnext : header.nextTaskId = pf.nextTaskId + 1) :
    TasksOk { pf with toFileHeader := header, tasks := pf.tasks ++ [t] } := by
  have hfresh : ∀ u ∈ pf.tasks, u.id ≠ t.id := by
    intro u hu heq
    obtain ⟨huid, hlt⟩ := h.numbered u hu
    rw [huid, hid] at heq
    have := taskId_injective heq
    omega
  have hself : t.id ∉ t.dependsOn := by
    intro hmem
    obtain ⟨u, hu, heq⟩ := hexist _ hmem
    exact hfresh u hu heq
  refine ⟨⟨?_, fun u hu dep hdep => ?_, fun u hu => ?_, fun u hu => ?_, ?_⟩, fun u hu => ?_⟩
  · rw [List.map_append]
    refine List.nodup_append.mpr ⟨h.ids, List.nodup_singleton _, fun a ha b hb heq => ?_⟩
    obtain ⟨u, hu, rfl⟩ := List.mem_map.mp ha
    rw [List.map_singleton, List.mem_singleton] at hb
    exact hfresh u hu (heq.trans hb)
  · have hold : ∃ v ∈ pf.tasks, v.id = dep := by
      rcases List.mem_append.mp hu with hu | hu
      · exact h.exist u hu dep hdep
      · rw [List.mem_singleton.mp hu] at hdep
        exact hexist dep hdep
    obtain ⟨v, hv, heq⟩ := hold
    exact ⟨v, List.mem_append_left _ hv, heq⟩
  · rcases List.mem_append.mp hu with hu | hu
    · exact h.irreflexive u hu
    · rw [List.mem_singleton.mp hu]
      exact hself
  · rcases List.mem_append.mp hu with hu | hu
    · exact h.distinct u hu
    · rw [List.mem_singleton.mp hu]
      exact hnodup
  · -- no edge of the old tasks enters the new one
    refine h.acyclic.redirect (s := t.id) (fun a b hne hedge => ?_) fun b hedge hpath => ?_
    · obtain ⟨u, hu, huid, hb⟩ := mem_depEdges.mp hedge
      rcases List.mem_append.mp hu with hu | hu
      · exact mem_depEdges.mpr ⟨u, hu, huid, hb⟩
      · rw [List.mem_singleton.mp hu] at huid
        exact absurd huid.symm hne
    · rcases Relation.ReflTransGen.cases_tail hpath with heq | ⟨u, -, -, hlast⟩
      · obtain ⟨u, hu, huid, hb⟩ := mem_depEdges.mp hedge
        rcases List.mem_append.mp hu with hu | hu
        · exact hfresh u hu huid
        · rw [List.mem_singleton.mp hu, ← heq] at hb
          exact hself hb
      · obtain ⟨v, hv, -, hdep⟩ := mem_depEdges.mp hlast
        obtain ⟨w, hw, hwid⟩ := h.exist v hv _ hdep
        exact hfresh w hw hwid
  · have hlt : u.id = taskId u.num ∧ u.num < pf.nextTaskId + 1 := by
      rcases List.mem_append.mp hu with hu | hu
      · obtain ⟨huid, hlt⟩ := h.numbered u hu
        exact ⟨huid, by omega⟩
      · rw [List.mem_singleton.mp hu, hid, hnum]
        exact ⟨rfl, by omega⟩
    exact ⟨hlt.1, hnext ▸ hlt.2⟩

/-- A task is replaced by one that depends on the same, or on what has been validated. -/
theorem TasksOk.set (h : TasksOk pf) {i : Nat} {t t' : TaskVal} (hget : pf.tasks[i]? = some t)
    (hid : t'.id = t.id) (hnum : t'.num = t.num)
    (hdeps : t'.dependsOn = t.dependsOn ∨
      t'.dependsOn.Nodup ∧ validateDependsOn pf t.id t'.dependsOn = .ok ()) :
    TasksOk { pf with tasks := pf.tasks.set i t' } := by
  have ht := List.mem_of_getElem? hget
  have hset : pf.tasks.set i t = pf.tasks := by
    obtain ⟨hi, rfl⟩ := List.getElem?_eq_some_iff.mp hget
    exact List.set_getElem_self hi
  rcases hdeps with hsame | ⟨hnodup, hvalid⟩
  · refine h.of_nodes ?_ fun _ _ hlt => hlt
    show (pf.tasks.set i t').map node = pf.tasks.map node
    have hnode : node t' = node t := by
      unfold node
      rw [hid, hnum, hsame]
    rw [List.map_set, hnode, ← List.map_set, hset]
  · obtain ⟨hexist, hcycle⟩ := validateDependsOn_ok hvalid
    have hids : (pf.tasks.set i t').map (·.id) = pf.tasks.map (·.id) := by
      rw [List.map_set, hid, ← List.map_set, hset]
    have hthere : ∀ dep, (∃ u ∈ pf.tasks, u.id = dep) → ∃ u ∈ pf.tasks.set i t', u.id = dep := by
      intro dep hold
      have hmem : dep ∈ (pf.tasks.set i t').map (·.id) := hids ▸ List.mem_map.mpr hold
      exact List.mem_map.mp hmem
    refine ⟨⟨?_, fun u hu dep hdep => ?_, fun u hu => ?_, fun u hu => ?_, ?_⟩, fun u hu => ?_⟩
    · rw [hids]
      exact h.ids
    · refine hthere dep ?_
      rcases List.mem_or_eq_of_mem_set hu with hu | rfl
      · exact h.exist u hu dep hdep
      · exact (hexist dep hdep).2
    · rcases List.mem_or_eq_of_mem_set hu with hu | rfl
      · exact h.irreflexive u hu
      · intro hmem
        exact (hexist _ hmem).1 hid
    · rcases List.mem_or_eq_of_mem_set hu with hu | rfl
      · exact h.distinct u hu
      · exact hnodup
    · have hedge : ∀ {a b}, (a, b) ∈ depEdges (pf.tasks.set i t') →
          (a, b) ∈ depEdges pf.tasks ∨ a = t.id ∧ b ∈ t'.dependsOn := by
        intro a b hmem
        obtain ⟨u, hu, huid, hb⟩ := mem_depEdges.mp hmem
        rcases List.mem_or_eq_of_mem_set hu with hu | rfl
        · exact .inl (mem_depEdges.mpr ⟨u, hu, huid, hb⟩)
        · exact .inr ⟨huid.symm.trans hid, hb⟩
      refine h.acyclic.redirect (s := t.id) (fun a b hne hmem => ?_) fun b hmem hpath => ?_
      · rcases hedge hmem with hold | ⟨heq, -⟩
        · exact hold
        · exact absurd heq hne
      · have hb : b ∈ t'.dependsOn := by
          obtain ⟨u, hu, huid, hb⟩ := mem_depEdges.mp hmem
          have ht' : t' ∈ pf.tasks.set i t' := by
            obtain ⟨hi, -⟩ := List.getElem?_eq_some_iff.mp hget
            exact List.mem_set hi t'
          rwa [← eq_of_id (hids ▸ h.ids) hu ht' (huid.trans hid.symm)]
        exact dependsOnCycle_false hcycle b hb (Relation.ReflTransGen.mono
          (fun u v huv => ⟨huv.1, mem_dependencies h.ids huv.2⟩) _ _ hpath)
    · rcases List.mem_or_eq_of_mem_set hu with hu | rfl
      · exact h.numbered u hu
      · rw [hid, hnum]
        exact h.numbered t ht

/-- A task is taken out, and its id out of what the others depend on. -/
theorem TasksOk.remove (h : TasksOk pf) {i : Nat} {t : TaskVal} (hget : pf.tasks[i]? = some t) :
    TasksOk { pf with
      tasks := (pf.tasks.eraseIdx i).map fun u => TaskEdit.apply u (.dropDependency t.id) } := by
  have hsub : (pf.tasks.eraseIdx i).Sublist pf.tasks := List.eraseIdx_sublist ..
  have hrest : ∀ u ∈ pf.tasks, u.id ≠ t.id → u ∈ pf.tasks.eraseIdx i := by
    intro u hu hne
    obtain ⟨k, hk⟩ := List.getElem?_of_mem hu
    refine List.mem_eraseIdx_iff_getElem?.mpr ⟨k, ?_, hk⟩
    rintro rfl
    rw [hget] at hk
    cases hk
    exact hne rfl
  refine ⟨⟨?_, fun u hu dep hdep => ?_, fun u hu => ?_, fun u hu => ?_, ?_⟩, fun u hu => ?_⟩
  · rw [List.map_map]
    exact (hsub.map _).nodup h.ids
  all_goals try obtain ⟨v, hv, rfl⟩ := List.mem_map.mp hu
  · obtain ⟨hdep, hne⟩ := List.mem_filter.mp hdep
    obtain ⟨w, hw, rfl⟩ := h.exist v (hsub.subset hv) dep hdep
    exact ⟨_, List.mem_map_of_mem (hrest w hw (of_decide_eq_true hne)), rfl⟩
  · exact fun hmem => h.irreflexive v (hsub.subset hv) (List.mem_filter.mp hmem).1
  · exact (h.distinct v (hsub.subset hv)).filter _
  · refine h.acyclic.mono ?_
    rintro ⟨a, b⟩ hmem
    obtain ⟨u, hu, huid, hb⟩ := mem_depEdges.mp hmem
    obtain ⟨v, hv, rfl⟩ := List.mem_map.mp hu
    exact mem_depEdges.mpr ⟨v, hsub.subset hv, huid, (List.mem_filter.mp hb).1⟩
  · exact h.numbered v (hsub.subset hv)

end Writes

/-- The dependencies stay in order. -/
theorem tasksOk_rule : FileRule TasksOk fun _ _ => True where
  new env projectID := by
    refine ⟨⟨List.nodup_nil, ?_, ?_, ?_, Lib.Graph.acyclic_nil⟩, ?_⟩
    all_goals exact fun t ht => (nomatch ht)
  header pf header hnext h := by
    refine h.of_nodes rfl fun t _ hlt => ?_
    show t.num < header.nextTaskId
    omega
  mutation := by
    rintro ⟨env, op⟩ fop pf c hfop hc - - h
    cases op with
    | create hubID projectName d createdBy =>
      obtain ⟨t, hid, hnum, hnodup, hexist, -, happly⟩ := create_ok (Option.some.inj hfop) hc
      rw [happly]
      exact h.append hid hnum hnodup hexist rfl
    | update taskID p =>
      cases hfop
      obtain ⟨i, t, t', hget, -, hid, hnum, hdeps, -, happly⟩ := update_ok hc
      rw [happly]
      exact h.set hget hid hnum hdeps
    | delete taskID =>
      cases hfop
      obtain ⟨i, t, hget, rfl, happly⟩ := delete_ok hc
      rw [happly]
      exact h.remove hget
    | shiftTasks taskIDs days =>
      obtain ⟨places, -, happly⟩ := shiftTasks_ok (Option.some.inj hfop) hc
      rw [happly]
      refine h.of_nodes (map_modifyEach (fun t => ?_) places pf.tasks) fun _ _ hlt => hlt
      rfl
    | read => cases hfop
    | reset => cases hfop
    | deleteProject r => cases hfop

/-- **In every state of the store the tasks' ids are distinct, and what they depend on exists,
is listed once, and comes to no cycle**, in memory and on disk. -/
theorem dependencies_ok {projectID : String} {es : List Event} {s : State}
    (hrun : Lib.Run (State.Happens projectID) Lib.always State.init es s) {pf : FileVal}
    (hpf : s.view.file = some pf ∨ s.disk = some pf) : DepsOk pf.tasks :=
  (tasksOk_rule.holds (hrun.mono fun _ _ _ _ _ => trivial) pf hpf).toDepsOk

/-- Three tasks in a row, a cycle that is refused, a save that fails, and the middle one
deleted after a restart. -/
def chain : List Event :=
  let someone : UserRef := { id := "u", name := "U", email := "" }
  let make (title : String) (deps : List String) : Op :=
    .create "h" "P" { title, dependsOn := deps } someone
  calls [make "a" [], make "b" ["t1"], make "c" ["t2", "t1"],
    .update "t1" { dependsOn := some ["t3"] }] ++
  [{ env := { now := 2, saveFails := true }, op := .delete "t2" }] ++
  calls [.reset, .delete "t2", .update "t1" { dependsOn := some ["t3"] }]

theorem dependencies_ok_chain :
    (after "p" chain .init).disk.map (fun pf => pf.tasks.map fun t => (t.id, t.dependsOn)) =
        some [("t1", []), ("t3", ["t1"])] ∧
      ∀ pf, (after "p" chain .init).disk = some pf → DepsOk pf.tasks :=
  ⟨by decide +kernel, fun _ hpf => dependencies_ok (run_after "p" chain .init) (.inr hpf)⟩

end Tasks
