import FusionLocalServer.Lib.Search
import FusionLocalServer.Lib.Table
import FusionLocalServer.Whiteboards.Outcome

/-!
# What is on disk of a board

The drawing of a board and its revision are in two files. `Project.stored` reads both; here is
what loading the project and saving a drawing do to it.
-/

namespace FusionLocalServer.Whiteboards

open Lib Std

def boardsOf : Option Stored → List Board
  | some (.file pf) => pf.boards
  | _ => []

namespace Project

variable {p q p' : Project} {env : Env} {projectID id : String} {pf : ProjectFile}

/-- What is on disk of a board: the drawing, and the revision. -/
def stored (p : Project) (id : String) : Option (Option (List Char) × Int) :=
  ((boardsOf p.disk).find? fun b => b.id = id).map fun b => (p.docs[id]?, b.docRev)

/-- The boards in memory are those on disk, if there are any. -/
def Agrees (p : Project) : Prop := ∀ pf, p.file = some pf → pf.boards = [] ∨ pf.boards = boardsOf p.disk

theorem Agrees.reset (p : Project) : Agrees p.reset := fun _ h => (nomatch h)

/-- A board in memory is on disk as well. -/
theorem Agrees.found (h : Agrees p) (hfile : p.file = some pf) {b : Board}
    (hfind : findBoard pf id = some b) : p.stored id = some (p.docs[id]?, b.docRev) := by
  have hboards : pf.boards = boardsOf p.disk := by
    refine (h pf hfile).resolve_left fun hnil => ?_
    unfold findBoard at hfind
    rw [hnil] at hfind
    cases hfind
  unfold Project.stored
  rw [← hboards]
  exact congrArg (Option.map _) hfind

theorem boardsOf_setAside (env : Env) (disk : Option Stored) :
    boardsOf (setAside env disk) = boardsOf disk ∨ boardsOf (setAside env disk) = [] := by
  unfold setAside
  split
  · exact .inl rfl
  · exact .inr rfl

/-- The file that is loaded has the boards that are on disk, or none. -/
theorem loadFile_boards (env : Env) (projectID : String) (disk : Option Stored) :
    (boardsOf (loadFile env projectID disk).1 = boardsOf disk ∨
      boardsOf (loadFile env projectID disk).1 = []) ∧
    ∀ pf, (loadFile env projectID disk).2 = .ok pf →
      pf.boards = [] ∨ pf.boards = boardsOf (loadFile env projectID disk).1 := by
  unfold loadFile
  split
  · exact ⟨.inl rfl, fun _ h => (nomatch h)⟩
  · split
    · refine ⟨.inl rfl, ?_⟩
      rintro _ ⟨⟩
      exact .inl rfl
    · refine ⟨boardsOf_setAside env _, ?_⟩
      rintro _ ⟨⟩
      exact .inl rfl
    · split
      · exact ⟨.inl rfl, fun _ h => (nomatch h)⟩
      · split
        · refine ⟨.inl rfl, ?_⟩
          rintro _ ⟨⟩
          exact .inr rfl
        · refine ⟨boardsOf_setAside env _, ?_⟩
          rintro _ ⟨⟩
          exact .inl rfl

/-- Loading the project leaves on disk what was there, or puts the whole file aside. -/
theorem Agrees.loaded (h : Agrees p) (env : Env) (projectID : String) :
    Agrees (p.loaded env projectID) ∧
      ∀ id, (p.loaded env projectID).stored id = p.stored id ∨
        (p.loaded env projectID).stored id = none := by
  unfold Project.loaded project
  cases hfile : p.file with
  | some pf => exact ⟨h, fun id => .inl rfl⟩
  | none =>
    obtain ⟨hdisk, hboards⟩ := loadFile_boards env projectID p.disk
    have hstored : ∀ file id,
        stored ⟨file, (loadFile env projectID p.disk).1, p.docs⟩ id = p.stored id ∨
          stored ⟨file, (loadFile env projectID p.disk).1, p.docs⟩ id = none := by
      intro file id
      unfold stored
      dsimp only
      rcases hdisk with heq | heq
      · rw [heq]
        exact .inl rfl
      · rw [heq]
        exact .inr rfl
    dsimp only
    cases hload : loadFile env projectID p.disk with
    | mk disk result =>
      rw [hload] at hboards hstored
      cases result with
      | error e => exact ⟨fun pf hpf => (nomatch hpf), hstored none⟩
      | ok pf =>
        refine ⟨?_, hstored (some pf)⟩
        rintro _ ⟨⟩
        exact hboards pf rfl

/-- A file that was saved is on disk. -/
theorem Agrees.holding (q : Project) (env : Env) (new : ProjectFile) : Agrees (q.holding env new) := by
  rintro _ ⟨⟩
  exact .inr rfl

/-- The revision a save leaves on disk, once it has written the drawing. -/
def leaves (env : Env) (old new : Int) : Int := if env.saveFails then old else new

/-- What a save leaves: the drawing, under the new revision or the old one, and all other
boards as they were. -/
theorem Agrees.writes {doc : List Char} {by' : UserRef} {rev : Board → Int}
    {result : Except Err Board} (h : Agrees q) (hfile : q.file = some pf)
    (hwrites : Writes env id doc by' rev q pf p' result) :
    Agrees p' ∧ (∀ id' ≠ id, p'.stored id' = q.stored id') ∧
      ∃ b, Draws env pf id doc b ∧
        p'.stored id = some (some doc, leaves env b.docRev (rev b)) := by
  have hother : ∀ id' ≠ id, (q.docs.insert id doc)[id']? = q.docs[id']? := fun id' hne => by
    rw [Table.get_insert, if_neg (Ne.symm hne)]
  have hself : (q.docs.insert id doc)[id]? = some doc := by
    rw [Table.get_insert, if_pos rfl]
  cases hwrites with
  | @torn b e hdraws hfails =>
    refine ⟨h, fun id' hne => ?_, b, hdraws, ?_⟩
    · unfold Project.stored
      dsimp only
      rw [hother id' hne]
    · have hstored : Agrees { q with docs := q.docs.insert id doc } := h
      rw [hstored.found hfile hdraws.found]
      show some ((q.docs.insert id doc)[id]?, _) = _
      rw [hself, leaves, if_pos hfails]
  | @done b hdraws hsaved =>
    have hboards : pf.boards = boardsOf q.disk := by
      refine (h pf hfile).resolve_left fun hnil => ?_
      have hfind := hdraws.found
      unfold findBoard at hfind
      rw [hnil] at hfind
      cases hfind
    refine ⟨Agrees.holding q env _, fun id' hne => ?_, b, hdraws, ?_⟩
    · have hfind := findBoard_onBoard pf id (f := saved env doc by' (rev b)) (fun _ => rfl) id'
      rw [if_neg hne] at hfind
      unfold Project.stored
      show Option.map _ (findBoard (pf.onBoard id _) id') = _
      rw [hfind, ← hboards]
      show Option.map (fun b : Board => ((q.docs.insert id doc)[id']?, b.docRev)) _ = _
      rw [hother id' hne]
      rfl
    · have hfind := findBoard_onBoard pf id (f := saved env doc by' (rev b)) (fun _ => rfl) id
      rw [if_pos rfl, hdraws.found] at hfind
      unfold Project.stored
      show Option.map _ (findBoard (pf.onBoard id _) id) = _
      rw [hfind]
      show some ((q.docs.insert id doc)[id]?, rev b) = _
      rw [hself, leaves, if_neg (Bool.eq_false_iff.mp hsaved)]

/-- A project in memory is not loaded again. -/
theorem project_of_file (env : Env) (projectID : String) (hfile : p.file = some pf) :
    p.project env projectID = (p, .ok pf) := by
  unfold project
  rw [hfile]

/-- What becomes of a project that is in memory: nothing, unless the operation did what it is
for. -/
theorem Outcome.of_file {α : Type}
    {did : Project → ProjectFile → Project → Except Err α → Prop} {out : Project × Except Err α}
    (h : Outcome env projectID p did out) (hfile : p.file = some pf) :
    (out.1 = p ∧ ∃ e, out.2 = .error e) ∨ did p pf out.1 out.2 := by
  have hload := project_of_file env projectID hfile
  cases h with
  | refused e => exact .inl ⟨rfl, e, rfl⟩
  | failed e => exact .inl ⟨loaded_of_project hload, e, rfl⟩
  | did hload' hdid =>
    rw [hload] at hload'
    cases hload'
    exact .inr hdid

/-- A save of a board in memory: it may write the drawing, and no other; and when it comes
off, the drawing is there under the revision it was to have. -/
structure Saves (p : Project) (pf : ProjectFile) (id : String) (doc : List Char)
    (rev : Board → Int) (p' : Project) (result : Except Err Board) : Prop where
  agrees : p'.Agrees
  file : p'.file.isSome
  other : ∀ id' ≠ id, p'.stored id' = p.stored id'
  done : ∀ b, result = .ok b → checkDoc doc = .ok () ∧
    ∃ old, findBoard pf id = some old ∧ b.docRev = rev old ∧
      p'.stored id = some (some doc, rev old)

theorem Agrees.saves {doc : List Char} {by' : UserRef} {rev : Board → Int}
    {result : Except Err Board} (h : Agrees p) (hfile : p.file = some pf)
    (hwrites : Writes env id doc by' rev p pf p' result) : Saves p pf id doc rev p' result := by
  obtain ⟨hagrees, hother, b, hdraws, hself⟩ := h.writes hfile hwrites
  refine ⟨hagrees, ?_, hother, fun b' hb' => ?_⟩
  · cases hwrites with
    | torn _ _ _ => exact Option.isSome_of_eq_some hfile
    | done _ _ => rfl
  · cases hwrites with
    | torn _ _ _ => cases hb'
    | done hdraws' hsaved =>
      cases hb'
      have hsame := hdraws'.found.symm.trans hdraws.found
      cases hsame
      refine ⟨hdraws.checked, _, hdraws.found, rfl, ?_⟩
      rw [hself, leaves, if_neg (Bool.eq_false_iff.mp hsaved)]

/-- An operation that ends without a save leaves the drawings alone. -/
theorem Agrees.unsaved (h : Agrees p) (hfile : p.file = some pf) (id : String)
    (doc : List Char) (rev : Board → Int) (e : Err) : Saves p pf id doc rev p (.error e) :=
  ⟨h, Option.isSome_of_eq_some hfile, fun _ _ => rfl, fun _ hb => (nomatch hb)⟩

theorem saveSnapshotAtRev_saves (h : Agrees p) (hfile : p.file = some pf) (env : Env)
    (projectID id : String) (doc : List Char) (by' : UserRef) (rev : Int) :
    Saves p pf id doc (fun _ => rev) (p.saveSnapshotAtRev env projectID id doc by' rev).1
      (p.saveSnapshotAtRev env projectID id doc by' rev).2 := by
  rcases (p.saveSnapshotAtRev_outcome env projectID id doc by' rev).of_file hfile with
    ⟨heq, e, herr⟩ | hwrites
  · rw [heq, herr]
    exact h.unsaved hfile id doc _ e
  · exact h.saves hfile hwrites

/-- Loading would put a file aside that has a version of its own, because it cannot be migrated. -/
def PutsAside (p : Project) (env : Env) : Prop :=
  p.file = none ∧ env.readFails = false ∧ env.renameFails = false ∧
    ∃ pf, p.disk = some (.file pf) ∧ pf.version ≤ fileVersion ∧ ¬ pf.migrates env

theorem loaded_stored (h : ¬ PutsAside p env) (projectID id : String) :
    (p.loaded env projectID).stored id = p.stored id := by
  have hdisk : p.file = none → boardsOf (loadFile env projectID p.disk).1 = boardsOf p.disk := by
    intro hfile
    unfold loadFile
    split
    · rfl
    · next hread =>
      have hread' := Bool.eq_false_iff.mpr hread
      split
      · next hdisk => rw [hdisk]
      · next hdisk =>
        rw [hdisk]
        exact (boardsOf_setAside env _).elim (fun h => h) fun h => h
      · next pf hdisk =>
        split
        · rfl
        · next hversion =>
          split
          · rfl
          · next hmigrates =>
            unfold setAside
            split
            · rfl
            · next hrename =>
              exact absurd ⟨hfile, hread', Bool.eq_false_iff.mpr hrename, pf, hdisk,
                Int.not_lt.mp hversion, hmigrates⟩ h
  unfold Project.loaded project
  cases hfile : p.file with
  | some pf => rfl
  | none =>
    have hsame := hdisk hfile
    dsimp only
    cases hload : loadFile env projectID p.disk with
    | mk disk result =>
      rw [hload] at hsame
      have hstored : ∀ file, stored ⟨file, disk, p.docs⟩ id = p.stored id := fun file => by
        unfold stored
        rw [hsame]
      cases result with
      | error e => exact hstored none
      | ok pf => exact hstored (some pf)

/-- A deletion takes the board that is found, and leaves every other as it was. -/
theorem Agrees.deletes {result : Except Err Unit} (h : Agrees q) (hfile : q.file = some pf)
    (hdeleted : Deleted env id q pf p' result) :
    Agrees p' ∧ p'.file.isSome ∧ (∀ id' ≠ id, p'.stored id' = q.stored id') ∧
      ((pf.boards.filter fun b => b.id = id).length ≤ 1 → p'.stored id = none) := by
  obtain ⟨⟨i, hi, docs, hdocs, rfl⟩, -⟩ := hdeleted
  have hboards : pf.boards = boardsOf q.disk := by
    refine (h pf hfile).resolve_left fun hnil => ?_
    rw [hnil] at hi
    cases hi
  refine ⟨?_, rfl, fun id' hne => ?_, fun honce => ?_⟩
  · rintro _ ⟨⟩
    exact .inr rfl
  · obtain ⟨hlt, hid, -⟩ := List.findIdx?_eq_some_iff_getElem.mp hi
    have hother : decide (pf.boards[i].id = id') = false :=
      decide_eq_false fun heq => hne (heq.symm.trans (of_decide_eq_true hid))
    have hdoc : docs[id']? = q.docs[id']? := by
      rcases hdocs with rfl | rfl
      · rfl
      · rw [Table.get_erase, if_neg (Ne.symm hne)]
    unfold Project.stored
    show ((pf.boards.eraseIdx i).find? _).map _ = _
    rw [find?_eraseIdx (List.getElem?_eq_getElem hlt) hother, ← hboards]
    show Option.map (fun b : Board => (docs[id']?, b.docRev)) _ = _
    rw [hdoc]
  · unfold Project.stored
    show ((pf.boards.eraseIdx i).find? _).map _ = _
    rw [find?_eraseIdx_first hi honce]
    rfl

/-- A read loads the project if need be, and is of what is on disk. -/
theorem Agrees.document (h : Agrees p) (env : Env) (projectID id : String) :
    ((p.document env projectID id).1 = p ∨
      (p.document env projectID id).1 = p.loaded env projectID) ∧
    ∀ doc rev, (p.document env projectID id).2 = .ok (doc, rev) →
      (p.document env projectID id).1.file.isSome ∧
        (p.document env projectID id).1.stored id = some (doc, rev) := by
  have hout := p.document_outcome env projectID id
  have hloaded := (h.loaded env projectID).1
  generalize p.document env projectID id = out at hout
  cases hout with
  | refused e => exact ⟨.inl rfl, fun _ _ hok => (nomatch hok)⟩
  | failed e => exact ⟨.inr rfl, fun _ _ hok => (nomatch hok)⟩
  | did hload hread =>
    obtain ⟨rfl, b, hfind, rfl⟩ := hread
    have hfile := file_of_project hload
    rw [loaded_of_project hload] at hloaded ⊢
    refine ⟨.inr rfl, ?_⟩
    rintro _ _ ⟨⟩
    exact ⟨Option.isSome_of_eq_some hfile, hloaded.found hfile hfind⟩

end Project

end FusionLocalServer.Whiteboards
