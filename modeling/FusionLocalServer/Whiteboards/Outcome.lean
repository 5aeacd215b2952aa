import FusionLocalServer.Whiteboards.Store

/-!
# What an operation of the store can do

An operation is refused, or loads the project and fails, or does what it is for: then the
file in memory and the one on disk are the new one. A save of a drawing can also stop
between its two writes (`Writes.torn`).
-/

namespace FusionLocalServer.Whiteboards

open Lib Std

namespace Project

variable {p q : Project} {env : Env} {projectID : String} {pf : ProjectFile}

/-- The project, loaded if need be. -/
def loaded (p : Project) (env : Env) (projectID : String) : Project := (p.project env projectID).1

/-- The project with a file that was saved. -/
def holding (p : Project) (env : Env) (pf : ProjectFile) : Project :=
  { p with file := some { pf with schema := pf.schema.touch env.toEnv }
           disk := some (.file { pf with schema := pf.schema.touch env.toEnv }) }

/-- How an operation ends: `did` says what it did, from the loaded project on. -/
inductive Outcome {α : Type} (env : Env) (projectID : String) (p : Project)
    (did : Project → ProjectFile → Project → Except Err α → Prop) :
    Project × Except Err α → Prop
  | refused (e : Err) : Outcome env projectID p did (p, .error e)
  | failed (e : Err) : Outcome env projectID p did (p.loaded env projectID, .error e)
  | did {q p' : Project} {pf : ProjectFile} {result : Except Err α} :
      p.project env projectID = (q, .ok pf) → did q pf p' result →
      Outcome env projectID p did (p', result)

theorem Outcome.imp {α : Type} {did did' : Project → ProjectFile → Project → Except Err α → Prop}
    {out : Project × Except Err α} (h : Outcome env projectID p did out)
    (himp : ∀ q pf p' result, p.project env projectID = (q, .ok pf) → did q pf p' result →
      did' q pf p' result) : Outcome env projectID p did' out := by
  cases h with
  | refused e => exact .refused e
  | failed e => exact .failed e
  | did hload hdid => exact .did hload (himp _ _ _ _ hload hdid)

theorem loaded_of_project {result : Except Err ProjectFile}
    (h : p.project env projectID = (q, result)) : p.loaded env projectID = q := by
  unfold loaded
  rw [h]

/-- The file that was loaded is the one in memory. -/
theorem file_of_project (h : p.project env projectID = (q, .ok pf)) : q.file = some pf := by
  unfold project at h
  cases hfile : p.file with
  | some old =>
    rw [hfile] at h
    cases h
    exact hfile
  | none =>
    rw [hfile] at h
    dsimp only at h
    split at h
    · cases h
    · cases h
      rfl

/-- An operation goes on with the loaded project, or ends with the error of loading it. -/
theorem outcome_of_project {α : Type}
    {did : Project → ProjectFile → Project → Except Err α → Prop}
    {go : Project → ProjectFile → Project × Except Err α}
    (h : ∀ q pf, p.project env projectID = (q, .ok pf) →
      Outcome env projectID p did (go q pf)) :
    Outcome env projectID p did
      (match p.project env projectID with
        | (q, .error e) => (q, .error e)
        | (q, .ok pf) => go q pf) := by
  cases hload : p.project env projectID with
  | mk q result =>
    cases result with
    | error e =>
      rw [← loaded_of_project hload]
      exact .failed e
    | ok pf => exact h q pf hload

/-- A save comes off, or leaves the project as it is loaded. -/
theorem save_cases {α : Type} (q : Project) (env : Env) (pf : ProjectFile) (a : α) :
    (∃ e, q.save env pf a = (q, .error e)) ∨ q.save env pf a = (q.holding env pf, .ok a) := by
  unfold save
  split
  · exact .inl ⟨_, rfl⟩
  · exact .inr rfl

theorem outcome_of_save {α : Type}
    {did : Project → ProjectFile → Project → Except Err α → Prop}
    (hload : p.project env projectID = (q, .ok pf)) {new : ProjectFile} {a : α}
    (h : did q pf (q.holding env new) (.ok a)) :
    Outcome env projectID p did (q.save env new a) := by
  rcases q.save_cases env new a with ⟨e, heq⟩ | heq
  · rw [heq, ← loaded_of_project hload]
    exact .failed e
  · rw [heq]
    exact .did hload h

/-! ## The operations -/

/-- The board that `Create` makes. -/
def newBoard (env : Env) (pf : ProjectFile) (name : String) (createdBy : UserRef) : Board :=
  { id := boardID pf.nextBoardID, num := pf.nextBoardID, name := trimSpace name, createdBy
    createdAt := env.now, updatedAt := env.now, updatedBy := createdBy }

/-- The file with it. -/
def withBoard (env : Env) (pf : ProjectFile) (hubID projectName name : String)
    (createdBy : UserRef) : ProjectFile :=
  { pf with nextBoardID := pf.nextBoardID + 1, hubID, projectName
            boards := pf.boards ++ [newBoard env pf name createdBy] }

theorem create_outcome (p : Project) (env : Env) (projectID hubID projectName name : String)
    (createdBy : UserRef) :
    Outcome env projectID p (fun q pf p' result =>
        p' = q.holding env (withBoard env pf hubID projectName name createdBy) ∧
          result = .ok (newBoard env pf name createdBy))
      (p.create env projectID hubID projectName name createdBy) := by
  unfold create
  dsimp only
  split
  · exact .refused _
  · refine outcome_of_project fun q pf hload => ?_
    split
    · rw [← loaded_of_project hload]
      exact .failed _
    · exact outcome_of_save hload ⟨rfl, rfl⟩

/-- What `Update` does to a board. -/
def renamed (env : Env) (name : Option String) (b : Board) : Board :=
  { b with name := (name.map trimSpace).getD b.name, updatedAt := env.now }

theorem update_outcome (p : Project) (env : Env) (projectID id : String) (name : Option String) :
    Outcome env projectID p (fun q pf p' _ =>
        p' = q.holding env (pf.onBoard id (renamed env name)))
      (p.update env projectID id name) := by
  unfold update
  dsimp only
  split
  · exact .refused _
  · refine outcome_of_project fun q pf hload => ?_
    split
    · rw [← loaded_of_project hload]
      exact .failed _
    · exact outcome_of_save hload rfl

/-- The board is off the file, and the drawing may be there still. -/
structure Deleted (env : Env) (id : String) (q : Project) (pf : ProjectFile) (p' : Project)
    (result : Except Err Unit) : Prop where
  found : ∃ i, pf.boards.findIdx? (fun b => b.id = id) = some i ∧
    ∃ docs, (docs = q.docs ∨ docs = q.docs.erase id) ∧
      p' = { q.holding env { pf with boards := pf.boards.eraseIdx i } with docs }
  done : result = .ok ()

theorem delete_outcome (p : Project) (env : Env) (projectID id : String) :
    Outcome env projectID p (Deleted env id) (p.delete env projectID id) := by
  unfold delete
  refine outcome_of_project fun q pf hload => ?_
  split
  · rw [← loaded_of_project hload]
    exact .failed _
  · next i hfind =>
    rcases q.save_cases env { pf with boards := pf.boards.eraseIdx i } () with ⟨e, heq⟩ | heq
    · rw [heq, ← loaded_of_project hload]
      exact .failed e
    · rw [heq]
      refine .did hload ⟨⟨i, hfind, ?_⟩, rfl⟩
      split
      · exact ⟨_, .inl rfl, rfl⟩
      · exact ⟨_, .inr rfl, rfl⟩

/-- A board is there, and the file can be loaded and saved. -/
structure Deletable (p : Project) (env : Env) (projectID id : String) : Prop where
  found : ∃ q pf, p.project env projectID = (q, .ok pf) ∧ (findBoard pf id).isSome
  saves : env.dirFails = false ∧ env.saveFails = false

theorem delete_iff (p : Project) (env : Env) (projectID id : String) :
    (p.delete env projectID id).2 = .ok () ↔ p.Deletable env projectID id := by
  have hfound : ∀ pf : ProjectFile, (findBoard pf id).isSome ↔
      (pf.boards.findIdx? fun b => b.id = id).isSome := fun pf => by
    rw [List.findIdx?_isSome, findBoard, List.find?_isSome, List.any_eq_true]
  constructor
  · intro h
    unfold delete at h
    split at h
    · cases h
    · next q pf hload =>
      split at h
      · cases h
      · next i hi =>
        refine ⟨⟨q, pf, hload, (hfound pf).mpr (Option.isSome_of_eq_some hi)⟩, ?_⟩
        unfold save at h
        by_cases hfails : (env.dirFails || env.saveFails) = true
        · rw [if_pos hfails] at h
          cases h
        · exact Bool.or_eq_false_iff.mp (Bool.eq_false_iff.mpr hfails)
  · rintro ⟨⟨q, pf, hload, hsome⟩, hdir, hsave⟩
    obtain ⟨i, hi⟩ := Option.isSome_iff_exists.mp ((hfound pf).mp hsome)
    unfold delete save
    rw [hload]
    dsimp only
    rw [hi, hdir, hsave]
    rfl

theorem checkDoc_ok_iff {doc : List Char} : checkDoc doc = .ok () ↔
    doc ≠ [] ∧ Json.byteLen doc ≤ MaxSnapshotBytes ∧ Json.valid doc = true := by
  unfold checkDoc
  rw [refuse_bind_iff, refuse_bind_iff, refuse_iff, Nat.not_lt, not_not]

/-- A save gets as far as writing the drawing of a board. -/
structure Draws (env : Env) (pf : ProjectFile) (id : String) (doc : List Char) (b : Board) :
    Prop where
  checked : checkDoc doc = .ok ()
  found : findBoard pf id = some b
  written : env.dirFails = false ∧ env.docWriteFails = false

/-- A drawing is written, and its revision may be. -/
inductive Writes (env : Env) (id : String) (doc : List Char) (by' : UserRef)
    (rev : Board → Int) (q : Project) (pf : ProjectFile) : Project → Except Err Board → Prop
  | torn {b : Board} (e : Err) : Draws env pf id doc b → env.saveFails = true →
      Writes env id doc by' rev q pf { q with docs := q.docs.insert id doc } (.error e)
  | done {b : Board} : Draws env pf id doc b → env.saveFails = false →
      Writes env id doc by' rev q pf
        { q.holding env (pf.onBoard id (saved env doc by' (rev b))) with
          docs := q.docs.insert id doc }
        (.ok (saved env doc by' (rev b) b))

theorem findBoard_id {b : Board} {id : String} (h : findBoard pf id = some b) : b.id = id := by
  simpa using List.find?_some h

/-- A change to a board is to the one that is found, and to no other. -/
theorem findBoard_onBoard (pf : ProjectFile) (id : String) {f : Board → Board}
    (hf : ∀ b, (f b).id = b.id) (id' : String) :
    findBoard (pf.onBoard id f) id' =
      if id' = id then (findBoard pf id).map f else findBoard pf id' := by
  unfold findBoard ProjectFile.onBoard
  dsimp only
  induction pf.boards with
  | nil => simp
  | cons b rest ih =>
    by_cases hb : b.id = id
    · -- the first board is the one that changes
      rw [List.findIdx_cons, decide_eq_true hb]
      by_cases hid : id' = id
      · simp [hid, hb, hf]
      · have hb' : ¬ b.id = id' := fun h => hid (h.symm.trans hb)
        simp [hid, hb', hf]
    · rw [List.findIdx_cons, decide_eq_false hb]
      simp only [cond_false, List.modify_succ_cons, List.find?_cons]
      rw [ih]
      by_cases hid : id' = id
      · simp [hid, hb]
      · rw [if_neg hid, if_neg hid]

theorem writeDoc_outcome (rev : Board → Int) {b : Board} {id : String} {doc : List Char}
    {by' : UserRef} (hcheck : checkDoc doc = .ok ())
    (hload : p.project env projectID = (q, .ok pf)) (hfind : findBoard pf id = some b) :
    Outcome env projectID p (Writes env id doc by' rev)
      (q.writeDoc env pf b doc by' (rev b)) := by
  have hid := findBoard_id hfind
  unfold writeDoc writeSnapshot
  by_cases hfails : (env.dirFails || env.docWriteFails) = true
  · rw [if_pos hfails, ← loaded_of_project hload]
    exact .failed _
  · have hwritten := Bool.or_eq_false_iff.mp (Bool.eq_false_iff.mpr hfails)
    have hdraws : Draws env pf id doc b := ⟨hcheck, hfind, hwritten⟩
    rw [if_neg hfails, hid]
    dsimp only
    unfold save
    rw [hwritten.1, Bool.false_or]
    by_cases hsave : env.saveFails = true
    · rw [if_pos hsave]
      exact .did hload (.torn _ hdraws hsave)
    · rw [if_neg hsave]
      exact .did hload (.done hdraws (Bool.eq_false_iff.mpr hsave))

theorem saveSnapshot_outcome (p : Project) (env : Env) (projectID id : String) (doc : List Char)
    (by' : UserRef) (baseRev : Int) (force : Bool) :
    Outcome env projectID p (fun q pf p' result =>
        (∀ b, findBoard pf id = some b → force = true ∨ baseRev = b.docRev) ∧
          Writes env id doc by' (fun b => b.docRev + 1) q pf p' result)
      (p.saveSnapshot env projectID id doc by' baseRev force) := by
  unfold saveSnapshot
  split
  · exact .refused _
  · next hcheck =>
    refine outcome_of_project fun q pf hload => ?_
    cases hfind : findBoard pf id with
    | none =>
      rw [← loaded_of_project hload]
      exact .failed _
    | some b =>
      dsimp only
      split
      · rw [← loaded_of_project hload]
        exact .failed _
      · next hbase =>
        have hok : force = true ∨ baseRev = b.docRev := by
          cases force with
          | true => exact .inl rfl
          | false => exact .inr (not_not.mp fun hne => hbase ⟨rfl, hne⟩)
        refine (writeDoc_outcome (fun b => b.docRev + 1) hcheck hload hfind).imp
          fun q' pf' p' result hload' hdid => ⟨fun b' hb' => ?_, hdid⟩
        rw [hload] at hload'
        cases hload'
        rw [hfind] at hb'
        cases hb'
        exact hok

theorem saveSnapshotAtRev_outcome (p : Project) (env : Env) (projectID id : String)
    (doc : List Char) (by' : UserRef) (rev : Int) :
    Outcome env projectID p (Writes env id doc by' fun _ => rev)
      (p.saveSnapshotAtRev env projectID id doc by' rev) := by
  unfold saveSnapshotAtRev
  split
  · exact .refused _
  · next hcheck =>
    refine outcome_of_project fun q pf hload => ?_
    split
    · rw [← loaded_of_project hload]
      exact .failed _
    · next b hfind => exact writeDoc_outcome (fun _ => rev) hcheck hload hfind

theorem document_outcome (p : Project) (env : Env) (projectID id : String) :
    Outcome env projectID p (fun q pf p' result => p' = q ∧
        ∃ b, findBoard pf id = some b ∧ result = .ok (q.docs[id]?, b.docRev))
      (p.document env projectID id) := by
  unfold document
  refine outcome_of_project fun q pf hload => ?_
  cases hfind : findBoard pf id with
  | none =>
    rw [← loaded_of_project hload]
    exact .failed _
  | some b =>
    dsimp only
    split
    · rw [← loaded_of_project hload]
      exact .failed _
    · exact .did hload ⟨rfl, b, hfind, rfl⟩

end Project

end FusionLocalServer.Whiteboards
