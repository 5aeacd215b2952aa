import FusionLocalServer.Production.Invariant
import FusionLocalServer.Tasks.Invariant

/-!
# An operation that fails changes nothing

In the production store and in the task store, an operation that returns an error leaves the
file on disk as it was, and what is in memory as it was but for the provenance stamp of the
file; a project that was not loaded may be loaded by it.

The production store edits a job in place and undoes a failed save from a copy of the job,
the task store from a copy of the file. That the copies share nothing with what is edited is
what the refinement of each store by its projects as values rests on.
-/

namespace FusionLocalServer.Storage

section Files

variable {F E : Type}

/-- A file in memory and one on disk, and what they are later. What is in memory is compared
by its content; when nothing was loaded, with what loading makes of the file on disk. -/
structure Unchanged (content : F → F) (load : Option F → Except E F)
    (file disk file' disk' : Option F) : Prop where
  on_disk : disk' = disk
  kept : ∀ pf, file = some pf → ∃ pf', file' = some pf' ∧ content pf' = content pf
  loaded : file = none → ∀ pf', file' = some pf' →
    ∃ pf, load disk = .ok pf ∧ content pf' = content pf

variable {content : F → F} {load : Option F → Except E F} {file disk : Option F}

theorem Unchanged.refl : Unchanged content load file disk file disk where
  on_disk := rfl
  kept pf h := ⟨pf, h, rfl⟩
  loaded h pf' h' := by
    rw [h] at h'
    cases h'

/-- It was loaded, if need be, and its content stayed. -/
theorem Unchanged.of_loaded {pf pf' : F} (hload : file = some pf ∨ file = none ∧ load disk = .ok pf)
    (hcontent : content pf' = content pf) : Unchanged content load file disk (some pf') disk where
  on_disk := rfl
  kept old h := by
    rcases hload with hload | ⟨hnone, -⟩
    · rw [hload] at h
      cases h
      exact ⟨pf', rfl, hcontent⟩
    · rw [hnone] at h
      cases h
  loaded h new h' := by
    rcases hload with hload | ⟨-, hload⟩
    · rw [hload] at h
      cases h
    · cases h'
      exact ⟨pf, hload, hcontent⟩

end Files

end FusionLocalServer.Storage

namespace Production

open FusionLocalServer.Storage

/-- A file without its stamp. -/
def content (pf : FileVal) : FileVal :=
  { pf with schema := ⟨zeroTime, "", zeroTime, ""⟩ }

namespace Project

variable {p : Project} {env : Env} {projectID : String} {e : Err}

/-- Nothing changed from one state of the project to another. -/
abbrev Same (env : Env) (projectID : String) (p p' : Project) : Prop :=
  Unchanged content (loadFile env projectID) p.file p.disk p'.file p'.disk

theorem loaded_cases {pf : FileVal} (h : p.loaded env projectID = .ok pf) :
    p.file = some pf ∨ p.file = none ∧ loadFile env projectID p.disk = .ok pf := by
  unfold loaded at h
  split at h
  · next hfile =>
    cases h
    exact .inl hfile
  · next hfile => exact .inr ⟨hfile, h⟩

theorem save_error {pf old new : FileVal} {result : Option JobVal}
    (hload : p.loaded env projectID = .ok pf) (hold : content old = content pf)
    (h : (p.save env old new result).2 = .error e) :
    Same env projectID p (p.save env old new result).1 := by
  unfold save at h ⊢
  split at h
  · next hfails =>
    rw [if_pos hfails]
    exact .of_loaded (loaded_cases hload) hold
  · cases h

theorem mutate_error {op : FileOp} (h : (p.mutate env projectID op).2 = .error e) :
    Same env projectID p (p.mutate env projectID op).1 := by
  unfold mutate at h ⊢
  split at h
  · exact .refl
  · next pf hload =>
    split at h
    · exact .of_loaded (loaded_cases hload) rfl
    · exact save_error hload rfl h

/-- A failed save puts the old job back, and leaves the stamp. -/
theorem mutateJob_error {jobID : String} {op : JobOp}
    (h : (p.mutateJob env projectID jobID op).2 = .error e) :
    Same env projectID p (p.mutateJob env projectID jobID op).1 := by
  unfold mutateJob at h ⊢
  split at h
  · exact .refl
  · next pf hload =>
    split at h
    · exact .of_loaded (loaded_cases hload) rfl
    · split at h
      · exact .of_loaded (loaded_cases hload) rfl
      · split at h
        · exact .of_loaded (loaded_cases hload) rfl
        · refine save_error hload ?_ h
          unfold content touchFile
          dsimp only
          split <;> rfl

theorem exec_error {op : Op} (h : (p.exec env projectID op).2 = .error e)
    (hkind : e.kind ≠ .removal) : Same env projectID p (p.exec env projectID op).1 := by
  unfold exec at h ⊢
  split at h
  · split at h
    · exact .refl
    · exact mutate_error h
  · split at h
    · exact .refl
    · exact mutate_error h
  · split at h
    · exact .refl
    · exact mutate_error h
  · split at h
    · exact .refl
    · exact mutateJob_error h
  · split at h
    · exact .refl
    · cases h
  · cases h
  · next r =>
    cases r with
    | done => cases h
    | failed gone =>
      cases h
      exact absurd rfl hkind

end Project

end Production

namespace Tasks

open FusionLocalServer.Storage

/-- A file without its stamp. -/
def content (pf : FileVal) : FileVal :=
  { pf with schema := ⟨zeroTime, "", zeroTime, ""⟩ }

namespace Project

variable {p : Project} {env : Env} {projectID : String} {e : Err}

/-- Nothing changed from one state of the project to another. -/
abbrev Same (env : Env) (projectID : String) (p p' : Project) : Prop :=
  Unchanged content (loadFile env projectID) p.file p.disk p'.file p'.disk

theorem loaded_cases {pf : FileVal} (h : p.loaded env projectID = .ok pf) :
    p.file = some pf ∨ p.file = none ∧ loadFile env projectID p.disk = .ok pf := by
  unfold loaded at h
  split at h
  · next hfile =>
    cases h
    exact .inl hfile
  · next hfile => exact .inr ⟨hfile, h⟩

theorem mutate_error {op : FileOp} (h : (p.mutate env projectID op).2 = .error e) :
    Same env projectID p (p.mutate env projectID op).1 := by
  unfold mutate at h ⊢
  split at h
  · exact .refl
  · next pf hload =>
    split at h
    · exact .of_loaded (loaded_cases hload) rfl
    · dsimp only at h ⊢
      split at h
      · next hfails =>
        rw [if_pos hfails]
        exact .of_loaded (loaded_cases hload) rfl
      · cases h

theorem exec_error {op : Op} (h : (p.exec env projectID op).2 = .error e)
    (hkind : e.kind ≠ .removal) : Same env projectID p (p.exec env projectID op).1 := by
  unfold exec at h ⊢
  split at h
  · exact .refl
  · exact mutate_error h
  · split at h
    · cases h
    · next r _ =>
      cases r with
      | done => cases h
      | failed gone =>
        cases h
        exact absurd rfl hkind
    · split at h
      · exact .refl
      · cases h

end Project

end Tasks

namespace FusionLocalServer.Storage

/-- **An operation of either store that returns an error leaves the project as it was**, in
memory and on disk, in every state there can be. -/
theorem error_changes_nothing :
    (∀ (projectID : String) (es : List Production.Event) (s : Production.State),
      Lib.Run (Production.State.Happens projectID) Lib.always .init es s →
      ∀ (env : Env) (op : Production.Op) (e : Production.Err),
        (s.exec env projectID op).2 = .error e → e.kind ≠ .removal →
          Production.Project.Same env projectID s.view (s.exec env projectID op).1.view) ∧
    (∀ (projectID : String) (es : List Tasks.Event) (s : Tasks.State),
      Lib.Run (Tasks.State.Happens projectID) Lib.always .init es s →
      ∀ (env : Env) (op : Tasks.Op) (e : Tasks.Err),
        (s.exec env projectID op).2 = .error e → e.kind ≠ .removal →
          Tasks.Project.Same env projectID s.view (s.exec env projectID op).1.view) := by
  constructor
  · intro projectID es s hrun env op e herr hkind
    have hok := (Production.State.run_refines hrun Production.State.init_ok).1
    obtain ⟨-, hview, hresult⟩ := Production.State.exec_refines hok env projectID op
    rw [hresult] at herr
    rw [hview]
    exact Production.Project.exec_error herr hkind
  · intro projectID es s hrun env op e herr hkind
    have hadmitted : Lib.Run (Tasks.State.Happens projectID) (fun s e => Lib.always s.view e)
      Tasks.State.init es s := hrun
    have hok := (Tasks.State.run_refines hadmitted Tasks.State.init_ok).1
    obtain ⟨-, hview, hresult⟩ := Tasks.State.exec_refines hok env projectID op
    rw [hresult] at herr
    rw [hview]
    exact Tasks.Project.exec_error herr hkind

/-- A disk that is full. -/
def fullDisk : Env := { now := 2, saveFails := true }

/-- A job that cannot be renamed, and a task that cannot be deleted, for want of space. -/
theorem error_changes_nothing_fullDisk :
    let s := Production.after "p"
      (Production.calls [.createJob "h" "P" { name := "a", description := "" } default]) .init
    let t := Tasks.after "p" (Tasks.calls [.create "h" "P" { title := "a" } default]) .init
    Production.Project.Same fullDisk "p" s.view
        (s.exec fullDisk "p" (.onJob "j1" (.updateJob { name := some "b" }))).1.view ∧
      Tasks.Project.Same fullDisk "p" t.view (t.exec fullDisk "p" (.delete "t1")).1.view :=
  ⟨error_changes_nothing.1 "p" _ _ (Production.run_after ..) fullDisk _ Production.State.saveErr
      rfl (by decide),
    error_changes_nothing.2 "p" _ _ (Tasks.run_after ..) fullDisk _ Tasks.saveErr rfl (by decide)⟩

end FusionLocalServer.Storage
