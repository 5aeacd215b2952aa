import FusionLocalServer.Lib.Run
import FusionLocalServer.Lib.Serial
import FusionLocalServer.Lib.Table
import FusionLocalServer.Whiteboards.Outcome

/-!
# New boards are empty

The life of a project: the operations of the store, each meeting with any failures, restarts,
a file that becomes undecodable, and older backups put back. The ids of the boards come from
a counter in one file, and the drawings are in files named by the ids (`numbered`); so a new
board is empty as long as the counter is above the drawings there are. It can fall behind in
two ways, which `Above` keeps out: it starts over when its file cannot be used, and it is set
back by a backup.
-/

namespace FusionLocalServer.Whiteboards

open Lib Std

theorem boardID_injective {a b : Int} (h : boardID a = boardID b) : a = b :=
  Lib.formatInt_injective (String.ofList_injective (String.append_right_inj _ |>.mp h))

/-- A file as the store makes it: the boards have the ids of their numbers, and the counter
is above them. -/
structure Listed (pf : ProjectFile) : Prop where
  version : pf.version = fileVersion
  counter : 1 ≤ pf.nextBoardID
  boards : ∀ b ∈ pf.boards, b.id = boardID b.num ∧ b.num < pf.nextBoardID

theorem Listed.fresh (env : Env) (projectID : String) : Listed (freshFile env projectID) :=
  ⟨rfl, Int.le_refl _, fun _ h => (nomatch h)⟩

theorem Listed.repair {pf : ProjectFile} (h : Listed pf) (env : Env) : Listed (repairFile env pf) ∧
    (repairFile env pf).nextBoardID = pf.nextBoardID := by
  have hnext : (repairFile env pf).nextBoardID = pf.nextBoardID :=
    if_neg (Int.not_lt.mpr h.counter)
  exact ⟨⟨rfl, hnext ▸ h.counter, hnext.symm ▸ h.boards⟩, hnext⟩

theorem Listed.withBoard {pf : ProjectFile} (h : Listed pf) (env : Env)
    (hubID projectName name : String) (createdBy : UserRef) :
    Listed (Project.withBoard env pf hubID projectName name createdBy) := by
  refine ⟨h.version, ?_, fun b hb => ?_⟩
  · have := h.counter
    show 1 ≤ pf.nextBoardID + 1
    omega
  · show b.id = boardID b.num ∧ b.num < pf.nextBoardID + 1
    rcases List.mem_append.mp hb with hb | hb
    · have hold := h.boards b hb
      exact ⟨hold.1, by omega⟩
    · cases List.mem_singleton.mp hb
      exact ⟨rfl, by show pf.nextBoardID < _; omega⟩

/-- A change that leaves the board its number and its id. -/
theorem Listed.onBoard {pf : ProjectFile} (h : Listed pf) (id : String) (f : Board → Board)
    (hf : ∀ b, (f b).id = b.id ∧ (f b).num = b.num) : Listed (pf.onBoard id f) := by
  refine ⟨h.version, h.counter, fun b hb => ?_⟩
  obtain ⟨i, hi⟩ := List.mem_iff_getElem?.mp hb
  rw [show (pf.onBoard id f).boards = pf.boards.modify _ f from rfl, List.getElem?_modify] at hi
  obtain ⟨old, hold, rfl⟩ := Option.map_eq_some_iff.mp hi
  have hlisted := h.boards old (List.mem_of_getElem? hold)
  split
  · rw [(hf old).1, (hf old).2]
    exact hlisted
  · exact hlisted

theorem Listed.eraseIdx {pf : ProjectFile} (h : Listed pf) (i : Nat) :
    Listed { pf with boards := pf.boards.eraseIdx i } :=
  ⟨h.version, h.counter, fun b hb => h.boards b (List.mem_of_mem_eraseIdx hb)⟩

/-- The counter on disk. -/
def counterOf : Option Stored → Option Int
  | some (.file pf) => some pf.nextBoardID
  | some .damaged => none
  | none => none

namespace Project

/-- The project as a counter and numbered files. -/
def numbered (p : Project) : Numbered where
  memory := p.file.map ProjectFile.nextBoardID
  disk := counterOf p.disk
  files := { n | (p.docs[boardID n]?).isSome }

/-- What holds of a project in all its life. -/
structure Sound (p : Project) : Prop where
  file : ∀ pf, p.file = some pf → Listed pf
  disk : ∀ pf, p.disk = some (.file pf) → Listed pf
  ahead : p.numbered.Ahead

/-- Loading the project starts over: there is no file, or none that can be used. -/
def Recovers (p : Project) (env : Env) : Prop :=
  p.file = none ∧ env.readFails = false ∧
    ∀ pf, p.disk = some (.file pf) → pf.version ≤ fileVersion ∧ ¬ pf.migrates env

variable {p q : Project} {env : Env} {projectID : String} {pf : ProjectFile}

/-- Loading a project: it stays as it is, or its file is read, or it starts over. -/
theorem loaded_cases (h : Sound p) (env : Env) (projectID : String) :
    p.loaded env projectID = p ∨
    (∃ pf, p.file = none ∧ p.disk = some (.file pf) ∧
      p.loaded env projectID = { p with file := some (repairFile env pf) }) ∨
    (p.Recovers env ∧ ∃ disk, counterOf disk = none ∧
      (∀ pf, disk ≠ some (.file pf)) ∧
      p.loaded env projectID = { p with file := some (freshFile env projectID), disk }) := by
  unfold loaded project
  cases hfile : p.file with
  | some pf => exact .inl rfl
  | none =>
    dsimp only
    unfold loadFile
    by_cases hread : env.readFails = true
    · rw [if_pos hread]
      left
      show ({ file := none, disk := p.disk, docs := p.docs } : Project) = p
      rw [← hfile]
    · rw [if_neg hread]
      have hread' : env.readFails = false := Bool.eq_false_iff.mpr hread
      cases hdisk : p.disk with
      | none =>
        refine .inr (.inr ⟨⟨hfile, hread', fun pf h => ?_⟩, none, rfl, fun pf h => (nomatch h), rfl⟩)
        rw [hdisk] at h
        cases h
      | some stored =>
        cases stored with
        | damaged =>
          refine .inr (.inr ⟨⟨hfile, hread', fun pf h => ?_⟩, setAside env (some .damaged), ?_, ?_, rfl⟩)
          · rw [hdisk] at h
            cases h
          · unfold setAside
            split <;> rfl
          · intro pf
            unfold setAside
            split <;> exact fun h => (nomatch h)
        | file pf =>
          have hlisted := h.disk pf hdisk
          have hmigrates : pf.migrates env := .inl hlisted.version
          dsimp only
          rw [if_neg (by rw [hlisted.version]; exact Int.lt_irrefl _), if_pos hmigrates]
          refine .inr (.inl ⟨pf, rfl, rfl, ?_⟩)
          rw [← hdisk]

theorem Sound.loaded (h : Sound p) (env : Env) (projectID : String)
    (hrecovers : p.Recovers env → p.docs = ∅) :
    Sound (p.loaded env projectID) ∧ (p.loaded env projectID).docs = p.docs := by
  rcases loaded_cases h env projectID with heq | ⟨pf, hfile, hdisk, heq⟩ |
    ⟨hrec, disk, hcounter, hnofile, heq⟩
  · rw [heq]
    exact ⟨h, rfl⟩
  · have hlisted := (h.disk pf hdisk).repair env
    rw [heq]
    refine ⟨⟨?_, h.disk, ?_⟩, rfl⟩
    · rintro _ ⟨⟩
      exact hlisted.1
    · refine h.ahead.move (t := numbered { p with file := some (repairFile env pf) }) ?_
      have hmemory : p.numbered.memory = none := by
        show p.file.map _ = none
        rw [hfile]
        rfl
      have hcount : p.numbered.disk = some (repairFile env pf).nextBoardID := by
        show counterOf p.disk = _
        rw [hdisk, hlisted.2]
        rfl
      exact .load hmemory hcount
  · rw [heq]
    refine ⟨⟨?_, fun pf hpf => absurd hpf (hnofile pf), ?_⟩, rfl⟩
    · rintro _ ⟨⟩
      exact .fresh env projectID
    · have hmove : p.numbered.Move { p.numbered with memory := some 1, disk := none } := by
        refine .recover ?_ ?_
        · show p.file.map _ = none
          rw [hrec.1]
          rfl
        · refine Set.eq_empty_iff_forall_notMem.mpr fun n hn => ?_
          change (p.docs[boardID n]?).isSome = true at hn
          rw [hrecovers hrec, ExtTreeMap.getElem?_empty] at hn
          cases hn
      have hnumbered : numbered { p with file := some (freshFile env projectID), disk } =
          { p.numbered with memory := some 1, disk := none } := by
        unfold numbered
        rw [hcounter]
        rfl
      rw [hnumbered]
      exact h.ahead.move hmove

variable (env) in
/-- A file that is saved counts on from the one in memory. -/
theorem Sound.holding (h : Sound q) (hfile : q.file = some pf) {new : ProjectFile}
    (hlisted : Listed new)
    (hcount : new.nextBoardID = pf.nextBoardID ∨ new.nextBoardID = pf.nextBoardID + 1) :
    Sound (q.holding env new) := by
  have hsaved : Listed { new with schema := new.schema.touch env.toEnv } :=
    ⟨hlisted.version, hlisted.counter, hlisted.boards⟩
  have hmemory : q.numbered.memory = some pf.nextBoardID := by
    show q.file.map _ = _
    rw [hfile]
    rfl
  refine ⟨?_, ?_, ?_⟩
  · rintro _ ⟨⟩
    exact hsaved
  · rintro _ ⟨⟩
    exact hsaved
  · rcases hcount with hsame | hnext
    · have hnumbered : (q.holding env new).numbered = { q.numbered with disk := some pf.nextBoardID } := by
        show Numbered.mk (some new.nextBoardID) (some new.nextBoardID) _ =
          Numbered.mk q.numbered.memory (some pf.nextBoardID) _
        rw [hsame, hmemory]
        rfl
      rw [hnumbered]
      exact h.ahead.move (.save hmemory)
    · have hmove := h.ahead.move (.issue hmemory)
      rw [← hnext] at hmove
      exact hmove

/-- A drawing is written for a board that there is. -/
theorem Sound.insert (h : Sound q) (hfile : q.file = some pf) {id : String} {b : Board}
    (hfind : findBoard pf id = some b) (doc : List Char) :
    Sound { q with docs := q.docs.insert id doc } := by
  have hboard := (h.file pf hfile).boards b (List.mem_of_find?_eq_some hfind)
  have hid : id = boardID b.num := (findBoard_id hfind).symm.trans hboard.1
  refine ⟨h.file, h.disk, ?_⟩
  have hmemory : q.numbered.memory = some pf.nextBoardID := by
    show q.file.map _ = _
    rw [hfile]
    rfl
  have hmove := h.ahead.move (.write hmemory hboard.2)
  have hfiles : numbered { q with docs := q.docs.insert id doc } =
      { q.numbered with files := Insert.insert b.num q.numbered.files } := by
    unfold numbered
    congr 1
    ext n
    show ((q.docs.insert id doc)[boardID n]?).isSome = true ↔ n = b.num ∨ _
    rw [Table.get_insert, hid]
    by_cases hn : boardID b.num = boardID n
    · rw [if_pos hn]
      exact ⟨fun _ => .inl (boardID_injective hn).symm, fun _ => rfl⟩
    · rw [if_neg hn]
      constructor
      · exact fun hsome => .inr hsome
      · exact fun hor => hor.resolve_left fun heq => hn (heq ▸ rfl)
  rw [hfiles]
  exact hmove

/-- Drawings may go. -/
theorem Sound.erase (h : Sound q) (id : String) : Sound { q with docs := q.docs.erase id } := by
  refine ⟨h.file, h.disk, h.ahead.move (.remove fun n hn => ?_)⟩
  change ((q.docs.erase id)[boardID n]?).isSome = true at hn
  rw [Table.get_erase] at hn
  split at hn
  · cases hn
  · exact hn

/-- Whatever an operation does keeps the project sound when what it did to the loaded one
does. -/
theorem Sound.outcome {α : Type} {did : Project → ProjectFile → Project → Except Err α → Prop}
    {out : Project × Except Err α} (h : Sound p) (hrecovers : p.Recovers env → p.docs = ∅)
    (hout : Outcome env projectID p did out)
    (hdid : ∀ q pf p' result, Sound q → q.file = some pf → did q pf p' result → Sound p') :
    Sound out.1 := by
  cases hout with
  | refused e => exact h
  | failed e => exact (h.loaded env projectID hrecovers).1
  | did hload hdone =>
    have hq := (h.loaded env projectID hrecovers).1
    rw [loaded_of_project hload] at hq
    exact hdid _ _ _ _ hq (file_of_project hload) hdone

theorem Sound.writes {id : String} {doc : List Char} {by' : UserRef} {rev : Board → Int}
    {p' : Project} {result : Except Err Board} (hq : Sound q) (hfile : q.file = some pf)
    (h : Writes env id doc by' rev q pf p' result) : Sound p' := by
  cases h with
  | torn e hdraws _ => exact hq.insert hfile hdraws.found doc
  | done hdraws _ =>
    have hinsert := hq.insert hfile hdraws.found doc
    exact hinsert.holding env hfile ((hq.file pf hfile).onBoard id _ fun _ => ⟨rfl, rfl⟩) (.inl rfl)

end Project

/-! ## The life of a project -/

/-- A project, and the backups there are of it. -/
structure Life where
  project : Project := {}
  copies : List Project := []

namespace Life

inductive Event where
  | create (env : Env) (hubID projectName name : String) (createdBy : UserRef)
  | update (env : Env) (id : String) (name : Option String)
  | delete (env : Env) (id : String)
  | saveSnapshot (env : Env) (id : String) (doc : List Char) (by' : UserRef) (baseRev : Int)
    (force : Bool)
  /-- A live room is written. -/
  | flush (env : Env) (id : String) (doc : List Char) (by' : UserRef) (rev : Int)
  /-- A drawing is read, by a viewer or for a live room. -/
  | read (env : Env) (id : String)
  | restart
  /-- The file on disk becomes undecodable. -/
  | damage
  | backup
  /-- A backup is put back, the file with the boards or not, and some of the drawings. -/
  | restore (i : Nat) (index : Bool) (which : String → Bool)

/-- The events that may load the project. -/
def Event.env : Event → Option Env
  | .create env .. | .update env .. | .delete env _ | .saveSnapshot env .. | .flush env ..
  | .read env _ => some env
  | _ => none

/-- The files of a backup over the ones there are. -/
def overlay (p c : Project) (index : Bool) (which : String → Bool) : Project where
  file := none
  disk := if index then c.disk.or p.disk else p.disk
  docs := p.docs ∪ c.docs.filter fun id _ => which id

def restore (l : Life) (i : Nat) (index : Bool) (which : String → Bool) : Life :=
  match l.copies[i]? with
  | none => l
  | some c => { l with project := overlay l.project c index which }

def exec (projectID : String) (l : Life) : Event → Life
  | .create env hubID projectName name createdBy =>
    { l with project := (l.project.create env projectID hubID projectName name createdBy).1 }
  | .update env id name => { l with project := (l.project.update env projectID id name).1 }
  | .delete env id => { l with project := (l.project.delete env projectID id).1 }
  | .saveSnapshot env id doc by' baseRev force =>
    { l with project := (l.project.saveSnapshot env projectID id doc by' baseRev force).1 }
  | .flush env id doc by' rev =>
    { l with project := (l.project.saveSnapshotAtRev env projectID id doc by' rev).1 }
  | .read env id => { l with project := (l.project.document env projectID id).1 }
  | .restart => { l with project := l.project.reset }
  | .damage => { l with project := { l.project with disk := l.project.disk.map fun _ => .damaged } }
  | .backup => { l with copies := l.copies ++ [l.project] }
  | .restore i index which => l.restore i index which

def Happens (projectID : String) (l : Life) (e : Event) (l' : Life) : Prop :=
  l.exec projectID e = l'

/-- The counter stays above the drawings: it starts over only when there are none, and a
backup that is put back has one that is above all that are there then. -/
def Above (l : Life) (e : Event) : Prop :=
  (∀ env, e.env = some env → l.project.Recovers env → l.project.docs = ∅) ∧
    ∀ i index which c pf, e = .restore i index which → l.copies[i]? = some c →
      (overlay l.project c index which).disk = some (.file pf) →
      ∀ n, ((overlay l.project c index which).docs[boardID n]?).isSome → n < pf.nextBoardID

structure Kept (l : Life) : Prop where
  project : l.project.Sound
  copies : ∀ c ∈ l.copies, ∀ pf, c.disk = some (.file pf) → Listed pf

theorem Kept.start : Kept {} := by
  refine ⟨⟨fun _ h => (nomatch h), fun _ h => (nomatch h), ?_, ?_, ?_⟩, fun _ h => (nomatch h)⟩
  · exact fun _ h => (nomatch h)
  · exact fun _ h => (nomatch h)
  · exact fun _ _ h => (nomatch h)

theorem Kept.overlay {l : Life} (h : Kept l) {c : Project} (hc : c ∈ l.copies) {index : Bool}
    {which : String → Bool}
    (habove : ∀ pf, (overlay l.project c index which).disk = some (.file pf) →
      ∀ n, ((Life.overlay l.project c index which).docs[boardID n]?).isSome →
        n < pf.nextBoardID) :
    (Life.overlay l.project c index which).Sound := by
  refine ⟨fun _ h => (nomatch h), fun pf hpf => ?_, ?_⟩
  · change (if index then c.disk.or l.project.disk else l.project.disk) = some (.file pf) at hpf
    split at hpf
    · rcases Option.or_eq_some_iff.mp hpf with hdisk | ⟨-, hdisk⟩
      · exact h.copies c hc pf hdisk
      · exact h.project.disk pf hdisk
    · exact h.project.disk pf hpf
  · refine h.project.ahead.move (.restore fun n hn k hk => ?_)
    change counterOf (Life.overlay l.project c index which).disk = some n at hn
    cases hdisk : (Life.overlay l.project c index which).disk with
    | none =>
      rw [hdisk] at hn
      cases hn
    | some stored =>
      rw [hdisk] at hn
      cases stored with
      | damaged => cases hn
      | file pf =>
        cases hn
        exact habove pf hdisk k hk

theorem Kept.exec {projectID : String} {l : Life} (h : Kept l) {e : Event} (hok : Above l e) :
    Kept (l.exec projectID e) := by
  have hp := h.project
  cases e with
  | create env hubID projectName name createdBy =>
    refine ⟨hp.outcome (hok.1 env rfl) (l.project.create_outcome ..) ?_, h.copies⟩
    rintro q pf _ _ hq hfile ⟨rfl, -⟩
    exact hq.holding env hfile ((hq.file pf hfile).withBoard ..) (.inr rfl)
  | update env id name =>
    refine ⟨hp.outcome (hok.1 env rfl) (l.project.update_outcome ..) ?_, h.copies⟩
    rintro q pf _ _ hq hfile rfl
    exact hq.holding env hfile ((hq.file pf hfile).onBoard id _ fun _ => ⟨rfl, rfl⟩) (.inl rfl)
  | delete env id =>
    refine ⟨hp.outcome (hok.1 env rfl) (l.project.delete_outcome ..) ?_, h.copies⟩
    rintro q pf _ _ hq hfile ⟨⟨i, -, docs, hdocs, rfl⟩, -⟩
    have hholding := hq.holding env hfile ((hq.file pf hfile).eraseIdx i) (.inl rfl)
    rcases hdocs with rfl | rfl
    · exact hholding
    · exact hholding.erase id
  | saveSnapshot env id doc by' baseRev force =>
    refine ⟨hp.outcome (hok.1 env rfl) (l.project.saveSnapshot_outcome ..) ?_, h.copies⟩
    rintro q pf _ _ hq hfile ⟨-, hwrites⟩
    exact hq.writes hfile hwrites
  | flush env id doc by' rev =>
    refine ⟨hp.outcome (hok.1 env rfl) (l.project.saveSnapshotAtRev_outcome ..) ?_, h.copies⟩
    intro q pf _ _ hq hfile hwrites
    exact hq.writes hfile hwrites
  | read env id =>
    refine ⟨hp.outcome (hok.1 env rfl) (l.project.document_outcome ..) ?_, h.copies⟩
    rintro q pf _ _ hq - ⟨rfl, -⟩
    exact hq
  | restart => exact ⟨⟨fun _ h => (nomatch h), hp.disk, hp.ahead.move .forget⟩, h.copies⟩
  | damage =>
    refine ⟨⟨hp.file, fun pf hpf => ?_, ?_⟩, h.copies⟩
    · change l.project.disk.map _ = _ at hpf
      obtain ⟨_, -, heq⟩ := Option.map_eq_some_iff.mp hpf
      cases heq
    · have hnone : counterOf (l.project.disk.map fun _ => Stored.damaged) = none := by
        cases l.project.disk <;> rfl
      show Numbered.Ahead ⟨_, counterOf (l.project.disk.map fun _ => Stored.damaged), _⟩
      rw [hnone]
      exact hp.ahead.move .damage
  | backup =>
    refine ⟨hp, fun c hc pf hpf => ?_⟩
    rcases List.mem_append.mp hc with hc | hc
    · exact h.copies c hc pf hpf
    · cases List.mem_singleton.mp hc
      exact hp.disk pf hpf
  | restore i index which =>
    show Kept (l.restore i index which)
    unfold restore
    cases hget : l.copies[i]? with
    | none => exact h
    | some c =>
      have hc := List.mem_of_getElem? hget
      exact ⟨h.overlay hc fun pf hpf => hok.2 i index which c pf rfl hget hpf, h.copies⟩

def calm : Env := { now := 0 }

/-- A board is made. -/
def makeBoard : Event := .create calm "h" "hub" "sketch" default

/-- The first board is drawn on. -/
def drawFirst : Event := .saveSnapshot calm "w1" ['1'] default 0 false

theorem above_start : Above {} makeBoard :=
  ⟨fun _ _ _ => rfl, fun _ _ _ _ _ h => (nomatch h)⟩

/-- A project in memory does not start over. -/
theorem above_of_file {l : Life} {env : Env} {hubID projectName name : String}
    {createdBy : UserRef} {pf : ProjectFile} (hfile : l.project.file = some pf) :
    Above l (.create env hubID projectName name createdBy) :=
  ⟨fun _ _ hrec => (nomatch hfile.symm.trans hrec.1), fun _ _ _ _ _ h => (nomatch h)⟩

/-- The project with its first board drawn on. -/
def drawnLife : Life := Life.exec "p" (Life.exec "p" {} makeBoard) drawFirst

def boardOf (n : Int) : Board :=
  { id := boardID n, num := n, name := "sketch", createdBy := default, createdAt := 0, updatedAt := 0
    updatedBy := default }

end Life

end FusionLocalServer.Whiteboards
