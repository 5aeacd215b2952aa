import FusionLocalServer.Lib.Run
import FusionLocalServer.Whiteboards.Stored

/-!
# A revision and the bytes it stands for

A client says of a change which revision it was made against, so a revision has to stand for
one drawing. The drawing and its revision are in two files, and the drawing is written first:
a save that fails in between leaves new bytes under the old revision. Apart from that, and
from a live room that is written at the revision there is, the bytes read at a revision are
the same whenever they are read (`Saving.read_same`).
-/

namespace FusionLocalServer.Whiteboards

open Lib Std

/-- What a client was given of a board. -/
structure Read where
  id : String
  doc : Option (List Char)
  rev : Int
  deriving DecidableEq

/-- A project, and the reads there were of its drawings. -/
structure Saving where
  project : Project
  reads : List Read := []

namespace Saving

inductive Event where
  /-- The whole document is put. -/
  | save (env : Env) (id : String) (doc : List Char) (by' : UserRef) (baseRev : Int) (force : Bool)
  /-- A live room is written. -/
  | flush (env : Env) (id : String) (doc : List Char) (by' : UserRef) (rev : Int)
  | read (env : Env) (id : String)
  | restart

def exec (projectID : String) (s : Saving) : Event → Saving
  | .save env id doc by' baseRev force =>
    { s with project := (s.project.saveSnapshot env projectID id doc by' baseRev force).1 }
  | .flush env id doc by' rev =>
    { s with project := (s.project.saveSnapshotAtRev env projectID id doc by' rev).1 }
  | .read env id =>
    match s.project.document env projectID id with
    | (project, .error _) => { s with project }
    | (project, .ok (doc, rev)) => { project, reads := s.reads ++ [⟨id, doc, rev⟩] }
  | .restart => { s with project := s.project.reset }

def Happens (projectID : String) (s : Saving) (e : Event) (t : Saving) : Prop :=
  s.exec projectID e = t

/-- A save that is admitted leaves what it writes under a higher revision, or writes what
there is. -/
def Raises (projectID : String) (p : Project) (env : Env) (id : String) (doc : List Char)
    (admits : Board → Prop) (rev : Board → Int) : Prop :=
  ∀ q pf b, p.project env projectID = (q, .ok pf) → Project.Draws env pf id doc b → admits b →
    b.docRev < Project.leaves env b.docRev (rev b) ∨
      (b.docRev = Project.leaves env b.docRev (rev b) ∧ q.docs[id]? = some doc)

/-- Every save raises the revision, or changes nothing. -/
def Distinct (projectID : String) (s : Saving) : Event → Prop
  | .save env id doc _ baseRev force =>
    Raises projectID s.project env id doc (fun b => force = true ∨ baseRev = b.docRev)
      fun b => b.docRev + 1
  | .flush env id doc _ rev =>
    Raises projectID s.project env id doc (fun _ => True) fun _ => rev
  | .read .. => True
  | .restart => True

/-- A read is of the drawing there is, or of an earlier revision. -/
def Fits (p : Project) (r : Read) : Prop :=
  ∀ doc rev, p.stored r.id = some (doc, rev) → r.rev ≤ rev ∧ (r.rev = rev → r.doc = doc)

structure Telling (s : Saving) : Prop where
  agrees : s.project.Agrees
  fits : ∀ r ∈ s.reads, Fits s.project r
  same : ∀ a ∈ s.reads, ∀ b ∈ s.reads, a.id = b.id → a.rev = b.rev → a.doc = b.doc

/-- What is put aside is not read again. -/
theorem Fits.loaded {p : Project} {r : Read} (h : Fits p r) (hagrees : p.Agrees) (env : Env)
    (projectID : String) : Fits (p.loaded env projectID) r := by
  intro doc rev hstored
  rcases (hagrees.loaded env projectID).2 r.id with heq | hnone
  · exact h doc rev (heq ▸ hstored)
  · rw [hnone] at hstored
    cases hstored

theorem Fits.raises {p q p' : Project} {r : Read} {env : Env} {projectID id : String}
    {pf : ProjectFile} {doc : List Char} {by' : UserRef} {admits : Board → Prop}
    {rev : Board → Int} {result : Except Err Board} (h : Fits q r) (hagrees : q.Agrees)
    (hload : p.project env projectID = (q, .ok pf))
    (hraises : Raises projectID p env id doc admits rev)
    (hadmits : ∀ b, findBoard pf id = some b → admits b)
    (hwrites : Project.Writes env id doc by' rev q pf p' result) : Fits p' r := by
  have hfile := Project.file_of_project hload
  obtain ⟨-, hother, b, hdraws, hself⟩ := hagrees.writes hfile hwrites
  intro doc' rev' hstored
  by_cases hid : r.id = id
  · rw [hid, hself] at hstored
    cases hstored
    have hold : q.stored r.id = some (q.docs[id]?, b.docRev) := by
      rw [hid]
      exact hagrees.found hfile hdraws.found
    have hfits := h _ _ hold
    rcases hraises q pf b hload hdraws (hadmits b hdraws.found) with hlt | ⟨heq, hdoc⟩
    · constructor
      · omega
      · intro hrev
        omega
    · rw [← heq]
      exact ⟨hfits.1, fun hrev => (hfits.2 hrev).trans hdoc⟩
  · exact h doc' rev' (hother r.id hid ▸ hstored)

/-- Whatever an operation does, what was read keeps fitting if it does once the project is
loaded. -/
theorem Telling.outcome {α : Type} {s : Saving} {env : Env} {projectID : String}
    {did : Project → ProjectFile → Project → Except Err α → Prop} {out : Project × Except Err α}
    (h : Telling s) (hout : Project.Outcome env projectID s.project did out)
    (hdid : ∀ q pf p' result, q.Agrees → (∀ r ∈ s.reads, Fits q r) →
      s.project.project env projectID = (q, .ok pf) → did q pf p' result →
      p'.Agrees ∧ ∀ r ∈ s.reads, Fits p' r) : Telling { s with project := out.1 } := by
  have hagrees := (h.agrees.loaded env projectID).1
  have hfits : ∀ r ∈ s.reads, Fits (s.project.loaded env projectID) r :=
    fun r hr => (h.fits r hr).loaded h.agrees env projectID
  cases hout with
  | refused e => exact h
  | failed e => exact ⟨hagrees, hfits, h.same⟩
  | did hload hdone =>
    rw [Project.loaded_of_project hload] at hagrees hfits
    obtain ⟨hagrees', hfits'⟩ := hdid _ _ _ _ hagrees hfits hload hdone
    exact ⟨hagrees', hfits', h.same⟩

/-- A read of the drawing there is fits with all reads before. -/
theorem Telling.read {s : Saving} {id : String} {doc : Option (List Char)} {rev : Int}
    (h : Telling s) (hstored : s.project.stored id = some (doc, rev)) :
    Telling { s with reads := s.reads ++ [⟨id, doc, rev⟩] } := by
  have hnew : Fits s.project ⟨id, doc, rev⟩ := by
    intro doc' rev' heq
    have hsame := hstored.symm.trans heq
    cases hsame
    exact ⟨Int.le_refl _, fun _ => rfl⟩
  have hold : ∀ r ∈ s.reads, r.id = id → r.rev = rev → r.doc = doc := by
    rintro r hr rfl hrev
    exact (h.fits r hr doc rev hstored).2 hrev
  refine ⟨h.agrees, fun r hr => ?_, fun a ha b hb hid hrev => ?_⟩
  · rcases List.mem_append.mp hr with hr | hr
    · exact h.fits r hr
    · cases List.mem_singleton.mp hr
      exact hnew
  · rcases List.mem_append.mp ha with ha | ha <;> rcases List.mem_append.mp hb with hb | hb
    · exact h.same a ha b hb hid hrev
    · cases List.mem_singleton.mp hb
      exact hold a ha hid hrev
    · cases List.mem_singleton.mp ha
      exact (hold b hb hid.symm hrev.symm).symm
    · cases List.mem_singleton.mp ha
      cases List.mem_singleton.mp hb
      rfl

theorem Telling.exec {projectID : String} {s : Saving} (h : Telling s) {e : Event}
    (hok : Distinct projectID s e) : Telling (s.exec projectID e) := by
  cases e with
  | save env id doc by' baseRev force =>
    refine h.outcome (s.project.saveSnapshot_outcome env projectID id doc by' baseRev force) ?_
    rintro q pf p' result hagrees hfits hload ⟨hadmits, hwrites⟩
    refine ⟨(hagrees.writes (Project.file_of_project hload) hwrites).1, fun r hr => ?_⟩
    exact (hfits r hr).raises hagrees hload hok hadmits hwrites
  | flush env id doc by' rev =>
    refine h.outcome (s.project.saveSnapshotAtRev_outcome env projectID id doc by' rev) ?_
    intro q pf p' result hagrees hfits hload hwrites
    refine ⟨(hagrees.writes (Project.file_of_project hload) hwrites).1, fun r hr => ?_⟩
    exact (hfits r hr).raises hagrees hload hok (fun _ _ => trivial) hwrites
  | read env id =>
    have hout := s.project.document_outcome env projectID id
    have hloaded := h.outcome hout fun q pf p' result hagrees hfits _ hread => by
      obtain ⟨rfl, -⟩ := hread
      exact ⟨hagrees, hfits⟩
    rw [show s.exec projectID (.read env id) = _ from rfl, Saving.exec]
    split
    · next p e heq =>
      rw [heq] at hloaded
      exact hloaded
    · next p doc rev heq =>
      rw [heq] at hloaded hout
      refine hloaded.read ?_
      cases hout with
      | did hload hread =>
        obtain ⟨rfl, b, hfind, hresult⟩ := hread
        cases hresult
        exact hloaded.agrees.found (Project.file_of_project hload) hfind
  | restart => exact ⟨Project.Agrees.reset _, h.fits, h.same⟩

/-- **A revision stands for one drawing**: two reads of a board at the same revision are of
the same bytes. -/
theorem read_same {projectID : String} {p : Project} {events : List Event} {s : Saving}
    (hrun : Run (Happens projectID) (Distinct projectID) { project := p.reset } events s) :
    ∀ a ∈ s.reads, ∀ b ∈ s.reads, a.id = b.id → a.rev = b.rev → a.doc = b.doc := by
  have htelling : Telling s := by
    refine hrun.invariant ?_ fun s e t h hok hstep => ?_
    · exact ⟨Project.Agrees.reset p, fun _ hr => (nomatch hr), fun _ hr => (nomatch hr)⟩
    · cases hstep
      exact h.exec hok
  exact htelling.same

/-! ### Two saves, and one that stops half way -/

def steady : Env := { now := 0 }

/-- The drawing can be written and its revision cannot. -/
def halfway : Env := { now := 0, saveFails := true }

/-- A project with one board. -/
def sketchbook : Project := (({} : Project).create steady "p" "h" "hub" "sketch" default).1

def putFirst : Event := .save steady "w1" ['1'] default 0 false
def putSecond (env : Env) : Event := .save env "w1" ['2'] default 1 false
def readBoard : Event := .read steady "w1"

theorem distinct_steady {s : Saving} {id : String} {doc : List Char} {by' : UserRef}
    {baseRev : Int} {force : Bool} :
    Distinct "p" s (.save steady id doc by' baseRev force) := fun _ _ b _ _ _ =>
  .inl (show b.docRev < b.docRev + 1 by omega)

/-- The board is read after each of two saves. -/
def twoReads : Saving :=
  [putFirst, readBoard, putSecond steady, readBoard].foldl (exec "p") { project := sketchbook.reset }

theorem read_same_sketch : twoReads.reads = [⟨"w1", some ['1'], 1⟩, ⟨"w1", some ['2'], 2⟩] ∧
    ∀ a ∈ twoReads.reads, ∀ b ∈ twoReads.reads, a.id = b.id → a.rev = b.rev → a.doc = b.doc := by
  have hrun : Run (Happens "p") (Distinct "p") { project := sketchbook.reset }
      [putFirst, readBoard, putSecond steady, readBoard] twoReads :=
    .cons distinct_steady rfl (.cons trivial rfl (.cons distinct_steady rfl (.single trivial rfl)))
  exact ⟨by decide +kernel, read_same hrun⟩

/-- The board is read before and after a save that stops half way. -/
def tornReads : Saving :=
  [putFirst, readBoard, putSecond halfway, readBoard].foldl (exec "p")
    { project := sketchbook.reset }

/-- The second save is refused to its client, and is what is read at the revision there was. -/
theorem torn_read : ∃ a ∈ tornReads.reads, ∃ b ∈ tornReads.reads,
    Run (Happens "p") always { project := sketchbook.reset }
      [putFirst, readBoard, putSecond halfway, readBoard] tornReads ∧
    a.id = b.id ∧ a.rev = b.rev ∧ a.doc ≠ b.doc := by
  have hreads : tornReads.reads = [⟨"w1", some ['1'], 1⟩, ⟨"w1", some ['2'], 1⟩] := by
    decide +kernel
  rw [hreads]
  refine ⟨⟨"w1", some ['1'], 1⟩, by simp, ⟨"w1", some ['2'], 1⟩, by simp, ?_, rfl, rfl, by simp⟩
  exact Run.foldl _ (fun _ _ _ => trivial) _

end Saving

end FusionLocalServer.Whiteboards
