import FusionLocalServer.Production.FreshIds

/-!
# The histories of jobs

Beside each job in memory stands its history: the ids its children had when the job was loaded,
those they had before the last operation, and all they ever had since. A new job begins without;
a copy begins with its original's children and takes over nothing else. Through every run of the
store, an id that a job's child is given is new to the job's history, and children whose ids were
apart when they were loaded stay apart; for this the counters in the file that is loaded must be
above the ids of the children.
-/

namespace Production

open Lib (Time Issues refuse_ok forall₂_set forall₂_eraseIdx forall₂_getElem? forall₂_zipWith)
open List (Forall₂)
open FusionLocalServer.Storage

structure History where
  /-- The children's ids when the job was loaded, or its original's. -/
  origin : List String
  /-- All ids the job's children have had since. -/
  used : List String
  /-- The ids before the operation that is now to come. -/
  ids : List String

/-- Of a job just loaded. -/
def History.ofJob (j : JobVal) : History :=
  { origin := childIds j, used := childIds j, ids := childIds j }

/-- After an operation that has left the job so. -/
def History.record (h : History) (j : JobVal) : History :=
  { h with used := h.used ++ childIds j, ids := childIds j }

/-- The jobs in memory. -/
def Project.jobs (p : Project) : List JobVal :=
  match p.file with
  | some pf => pf.jobs
  | none => []

/-- The jobs an operation finds. -/
def Project.found (p : Project) (env : Env) (projectID : String) : List JobVal :=
  match p.loaded env projectID with
  | .ok pf => pf.jobs
  | .error _ => []

/-- The histories beside the jobs that an operation leaves of those it found. -/
def carry (op : Op) (jobs jobs' : List JobVal) (past : List History) : List History :=
  match op with
  | .createJob .. =>
    if jobs.length < jobs'.length then past ++ [{ origin := [], used := [], ids := [] }] else past
  | .duplicateJob _ _ jobID _ =>
    if jobs.length < jobs'.length then
      past ++ (past[jobs.findIdx fun j => j.id = jobID]?.map fun h => { h with used := [] }).toList
    else past
  | .deleteJob jobID =>
    if jobs'.length < jobs.length then past.eraseIdx (jobs.findIdx fun j => j.id = jobID) else past
  | _ => past

/-- The store, and the histories of the jobs in memory. -/
structure Followed where
  state : State
  past : List History

namespace Followed

/-- A store just started over what is on disk. -/
def start (disk : Option FileVal) : Followed := { state := { State.init with disk }, past := [] }

/-- The histories an event's operation finds. -/
def found (s : Followed) (projectID : String) (e : Event) : List History :=
  if s.state.file.isSome then s.past
  else (s.state.view.found e.env projectID).map History.ofJob

/-- The histories of the jobs it leaves in memory, as they were before it. -/
def carried (s : Followed) (projectID : String) (e : Event) (s' : Followed) : List History :=
  if s'.state.file.isSome then
    carry e.op (s.state.view.found e.env projectID) s'.state.view.jobs (s.found projectID e)
  else []

/-- One event of a run of the store, with the histories that come of it. -/
def Happens (projectID : String) (s : Followed) (e : Event) (s' : Followed) : Prop :=
  State.Happens projectID s.state e s'.state ∧
    s'.past = List.zipWith History.record (s.carried projectID e s') s'.state.view.jobs

end Followed

/-- No child has an id that is still to be given out, in the job or, for the batches' ids, in a
copy of it, which numbers its batches anew. -/
structure Clear (j : JobVal) : Prop where
  below : Below j.toJobHeader (childIds j)
  plan : ∀ n, 1 ≤ n → childId "b" n ∉ planIds j

/-- A history that is the job's: the counters are above all of it, and it has the job's ids. -/
structure Tracks (h : History) (j : JobVal) : Prop where
  below : Below j.toJobHeader h.used
  plan : ∀ n, 1 ≤ n → childId "b" n ∉ planIds j
  ids : h.ids = childIds j
  used : h.ids ⊆ h.used
  apart : h.origin.Nodup → h.ids.Nodup

/-- What an operation leaves of a job goes with the history carried over to it. -/
structure Fits (h : History) (j : JobVal) : Prop where
  issues : Issues h.ids h.used (childIds j)
  below : Below j.toJobHeader (h.used ++ childIds j)
  plan : ∀ n, 1 ≤ n → childId "b" n ∉ planIds j
  apart : h.origin.Nodup → h.ids.Nodup

theorem Fits.record {h : History} {j : JobVal} (hfits : Fits h j) : Tracks (h.record j) j where
  below := hfits.below
  plan := hfits.plan
  ids := rfl
  used := List.subset_append_right _ _
  apart horigin := hfits.issues.nodup (hfits.apart horigin)

theorem Tracks.fits {h : History} {j j' : JobVal} (htracks : Tracks h j) (hadds : Adds j j') :
    Fits h j' := by
  obtain ⟨hissues, hbelow⟩ := hadds.issues htracks.below (htracks.ids ▸ htracks.used)
  exact ⟨htracks.ids ▸ hissues, hbelow, fun n hn hmem => htracks.plan n hn (hadds.plan n hmem),
    htracks.apart⟩

theorem Tracks.clear {h : History} {j : JobVal} (htracks : Tracks h j) : Clear j where
  below := htracks.below.mono (fun _ => Int.le_refl _) (htracks.ids ▸ htracks.used)
  plan := htracks.plan

theorem Clear.tracks {j : JobVal} (h : Clear j) : Tracks (History.ofJob j) j :=
  ⟨h.below, h.plan, rfl, List.Subset.refl _, id⟩

theorem fits_newJob (h : JobHeader) : Fits { origin := [], used := [], ids := [] } (newJob h) :=
  ⟨.of_subperm (List.Subperm.refl _), fun _ _ _ _ hmem => (nomatch hmem),
    fun _ _ hmem => (nomatch hmem), id⟩

/-- A copy has its original's plan, with its counters, and no batches. -/
theorem Tracks.duplicate {h : History} {j : JobVal} {f : JobHeader → JobHeader}
    (htracks : Tracks h j)
    (hf : ∀ h, (f h).nextStepNum = h.nextStepNum ∧ (f h).nextBatchNum = 1 ∧
      (f h).nextChildNum = h.nextChildNum) :
    Fits { h with used := [] } (Production.duplicate f j) := by
  have hids : childIds (Production.duplicate f j) = planIds j := List.append_nil _
  obtain ⟨hstep, hbatch, hchild⟩ := hf j.toJobHeader
  have hplan : planIds j ⊆ h.used := fun id hid =>
    htracks.used (htracks.ids ▸ List.mem_append_left _ hid)
  refine ⟨.of_subperm ?_, fun letters hletters n hn hmem => ?_, htracks.plan, htracks.apart⟩
  · rw [hids, htracks.ids]
    exact (List.sublist_append_left ..).subperm
  · replace hmem : childId letters n ∈ planIds j := hids ▸ hmem
    by_cases hb : letters = "b"
    · -- the copy's batches are numbered from one again
      subst hb
      exact htracks.plan n (hbatch ▸ hn) hmem
    · refine htracks.below letters hletters n (Int.le_trans (Int.le_of_eq ?_) hn) (hplan hmem)
      show counterOf j.toJobHeader letters = counterOf (f j.toJobHeader) letters
      unfold counterOf
      rw [hstep, hchild, if_neg hb, if_neg hb]

/-! ## One operation -/

/-- The histories carried over go with the jobs an operation leaves. -/
theorem Changed.fits {now : Time} {op : Op} {jobs jobs' : List JobVal} {past : List History}
    (hchange : Changed now op jobs jobs') (htracks : Forall₂ Tracks past jobs) :
    Forall₂ Fits (carry op jobs jobs' past) jobs' := by
  have hsame : Forall₂ Fits past jobs := htracks.imp fun _ j h => h.fits (Adds.refl j)
  cases hchange with
  | created hstep hbatch hchild =>
    simp only [carry, List.length_append, List.length_singleton, Nat.lt_succ_self, ↓reduceIte]
    exact List.rel_append hsame (.cons (fits_newJob _) .nil)
  | copied hfirst hget hf =>
    obtain ⟨h, hh, htrack⟩ := forall₂_getElem? htracks hget
    obtain ⟨-, hidx⟩ := List.findIdx?_eq_some_iff_findIdx_eq.mp hfirst
    simp only [carry, List.length_append, List.length_singleton, Nat.lt_succ_self, ↓reduceIte,
      hidx, hh]
    exact List.rel_append hsame (.cons (htrack.duplicate hf) .nil)
  | @removed jobID _ i j hfirst hget =>
    obtain ⟨hlt, hidx⟩ := List.findIdx?_eq_some_iff_findIdx_eq.mp hfirst
    have hshort : (jobs.eraseIdx i).length < jobs.length := by
      rw [List.length_eraseIdx_of_lt hlt]
      omega
    have hcarry : carry (.deleteJob jobID) jobs (jobs.eraseIdx i) past = past.eraseIdx i := by
      simp [carry, hshort, hidx]
    rw [hcarry]
    exact forall₂_eraseIdx hsame i
  | @edited jobID _ i j c op edits hfirst hget hc hop =>
    refine forall₂_set hsame i fun h hh => ?_
    obtain ⟨h', hh', htrack⟩ := forall₂_getElem? htracks hget
    cases hh.symm.trans hh'
    have hadds := adds_call hc hop
    unfold applyAll at hadds ⊢
    rw [List.foldl_append]
    exact htrack.fits (hadds.congr rfl rfl fun _ => rfl)

theorem carry_same (op : Op) (jobs : List JobVal) (past : List History) :
    carry op jobs jobs past = past := by
  cases op <;> simp [carry]

/-- The counters of the file, as it is loaded, are above its children's ids. -/
def Ready (projectID : String) (disk : Option FileVal) : Prop :=
  ∀ env pf, loadFile env projectID disk = .ok pf → ∀ j ∈ pf.jobs, Clear j

/-- The repair only raises counters. -/
theorem Clear.repair {j : JobVal} (h : Clear j) :
    Clear { j with toJobHeader := repairJob j.toJobHeader } := by
  refine ⟨h.below.mono (fun letters => ?_) (List.Subset.refl _), h.plan⟩
  have hraise : ∀ n : Int, n ≤ if n < 1 then 1 else n := fun n => by split <;> omega
  show counterOf j.toJobHeader letters ≤ counterOf (repairJob j.toJobHeader) letters
  unfold counterOf repairJob
  split
  · exact hraise _
  · split <;> exact hraise _

theorem ready_none (projectID : String) : Ready projectID none := by
  intro env pf hload j hj
  unfold loadFile at hload
  split at hload
  · cases hload
  · cases hload
    cases hj

theorem ready_some {projectID : String} {pf : FileVal} (h : ∀ j ∈ pf.jobs, Clear j) :
    Ready projectID (some pf) := by
  intro env pf' hload j hj
  unfold loadFile at hload
  split at hload
  · cases hload
  · obtain ⟨-, hload⟩ := refuse_ok hload
    cases hload
    obtain ⟨j', hj', rfl⟩ := List.mem_map.mp hj
    exact (h j' hj').repair

namespace Project

variable {p p' : Project} {env : Env} {projectID : String} {op : Op} {past : List History}

theorem found_of_loaded {pf : FileVal} (hload : p.loaded env projectID = .ok pf) :
    p.found env projectID = pf.jobs := by
  unfold found
  rw [hload]

/-- Each job an operation leaves in memory goes with its history. -/
theorem Outcome.fits (hout : Outcome env projectID op p p')
    (hfound : Forall₂ Tracks past (p.found env projectID)) :
    Forall₂ Fits (if p'.file.isSome then carry op (p.found env projectID) p'.jobs past else [])
      p'.jobs := by
  have hsame : Forall₂ Fits past (p.found env projectID) :=
    hfound.imp fun _ j h => h.fits (Adds.refl j)
  cases hout with
  | same =>
    unfold jobs
    cases hfile : p.file with
    | none => exact .nil
    | some pf =>
      have hload : p.loaded env projectID = .ok pf := by rw [loaded, hfile]
      rw [found_of_loaded hload] at hsame ⊢
      show Forall₂ Fits (carry op pf.jobs pf.jobs past) pf.jobs
      rwa [carry_same]
  | @kept pf pf' hload hjobs hnext =>
    rw [found_of_loaded hload] at hsame ⊢
    show Forall₂ Fits (carry op pf.jobs pf'.jobs past) pf'.jobs
    rwa [hjobs, carry_same]
  | saved hload hchange =>
    rw [found_of_loaded hload] at hfound ⊢
    exact hchange.fits hfound
  | dropped _ => exact .nil
  | deleted _ => exact .nil

/-- What it leaves on disk is ready to be loaded again. -/
theorem Outcome.ready (hout : Outcome env projectID op p p')
    (hfound : Forall₂ Tracks past (p.found env projectID)) (hready : Ready projectID p.disk) :
    Ready projectID p'.disk := by
  have hfits := hout.fits hfound
  cases hout with
  | same => exact hready
  | kept _ _ _ => exact hready
  | saved _ _ =>
    refine ready_some fun j hj => ?_
    obtain ⟨i, hi⟩ := List.getElem?_of_mem hj
    obtain ⟨h, -, hfit⟩ := forall₂_getElem? hfits hi
    exact hfit.record.clear
  | dropped _ => exact hready
  | deleted _ =>
    dsimp only
    split
    · exact ready_none projectID
    · exact hready

end Project

/-! ## Runs -/

namespace Followed

/-- What every event keeps. -/
structure Kept (projectID : String) (s : Followed) : Prop where
  ok : s.state.Ok
  past : Forall₂ Tracks s.past s.state.view.jobs
  ready : Ready projectID s.state.disk

variable {projectID : String} {s s' : Followed} {e : Event}

theorem Kept.found (h : Kept projectID s) :
    Forall₂ Tracks (s.found projectID e) (s.state.view.found e.env projectID) := by
  unfold Followed.found
  cases hfile : s.state.file with
  | none =>
    rw [if_neg (by simp), List.forall₂_map_left_iff, List.forall₂_same]
    intro j hj
    unfold Project.found Project.loaded at hj
    simp only [State.view, hfile, Option.map_none] at hj
    split at hj
    · next pf hload => exact (h.ready e.env pf hload j hj).tracks
    · cases hj
  | some q =>
    have hpast := h.past
    unfold Project.jobs at hpast
    simp only [State.view, hfile, Option.map_some] at hpast
    have hload : s.state.view.loaded e.env projectID = .ok (s.state.value q) := by
      simp only [Project.loaded, State.view, hfile, Option.map_some]
    rwa [Project.found_of_loaded hload]

/-- The jobs that an event leaves in memory go with their histories. -/
theorem Kept.fits (h : Kept projectID s) (hstep : Happens projectID s e s') :
    Forall₂ Fits (s.carried projectID e s') s'.state.view.jobs := by
  obtain ⟨-, hview, -⟩ := State.exec_refines h.ok e.env projectID e.op
  rw [show _ = _ from hstep.1] at hview
  have hfits := (s.state.view.exec_cases e.env projectID e.op).fits h.found
  rw [← hview] at hfits
  unfold carried
  rwa [show s'.state.view.file.isSome = s'.state.file.isSome from Option.isSome_map] at hfits

/-- One event. -/
theorem Kept.step (h : Kept projectID s) (hstep : Happens projectID s e s') :
    Kept projectID s' := by
  obtain ⟨hok, hview, -⟩ := State.exec_refines h.ok e.env projectID e.op
  rw [show _ = _ from hstep.1] at hok hview
  have hready := (s.state.view.exec_cases e.env projectID e.op).ready h.found h.ready
  rw [← hview] at hready
  refine ⟨hok, ?_, hready⟩
  rw [hstep.2]
  exact forall₂_zipWith (h.fits hstep) fun _ _ hfits => hfits.record

/-- A run. -/
theorem Kept.run {es : List Event} {disk : Option FileVal} (hdisk : Ready projectID disk)
    (hrun : Lib.Run (Happens projectID) Lib.always (start disk) es s) : Kept projectID s := by
  refine hrun.invariant (P := Kept projectID) ?_ fun s e s' hkept _ hstep => hkept.step hstep
  exact ⟨fun p hp => (nomatch hp), .nil, hdisk⟩

end Followed

/-- A file with one job, of one step, whose counter of the steps is as given. -/
def countedFile (nextStepNum : Int) : FileVal :=
  { (default : FileHeader) with
    version := fileVersion
    jobs := [{ (default : JobHeader) with
      id := "j1", nextStepNum
      steps := [newStep { (default : StepHeader) with id := "s1" }], edges := [], batches := [] }] }

/-- Where events lead, with the histories. -/
def follow (projectID : String) (s : Followed) (e : Event) : Followed :=
  let next : Followed := { s with state := (s.state.exec e.env projectID e.op).1 }
  { next with
    past := List.zipWith History.record (s.carried projectID e next) next.state.view.jobs }

def twoSteps : List Event :=
  calls [.onJob "j1" (.createStep { title := "Cut" }), .onJob "j1" (.createStep { title := "Fold" })]

theorem run_follow (projectID : String) (es : List Event) (s : Followed) :
    Lib.Run (Followed.Happens projectID) Lib.always s es (es.foldl (follow projectID) s) := by
  induction es generalizing s with
  | nil => exact .nil
  | cons e es ih =>
    have hstep : Followed.Happens projectID s e (follow projectID s e) := ⟨rfl, rfl⟩
    exact .cons trivial hstep (ih _)

theorem ready_countedFile : Ready "p" (some (countedFile 2)) := by
  refine ready_some fun j hj => ?_
  cases List.mem_singleton.mp hj
  refine ⟨fun letters hletters n hn hmem => ?_, fun n _ hmem => ?_⟩
  · have hs1 : childId letters n = childId "s" 1 := List.mem_singleton.mp hmem
    obtain ⟨rfl, rfl⟩ := childId_inj hletters (by decide) hs1
    exact absurd hn (by decide)
  · have hs1 : childId "b" n = childId "s" 1 := List.mem_singleton.mp hmem
    exact absurd (childId_inj (by decide) (by decide) hs1).1 (by decide)

end Production
