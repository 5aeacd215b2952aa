import Mathlib.Logic.Basic
import FusionLocalServer.Jobs.Job
import FusionLocalServer.Lib.Search

/-!
# How jobs end

In whatever order the run of a job and the calls that cancel it take their steps: a job that has
ended stays as it is, one that was cancelled has its context torn down, and its end is announced
once.
-/

namespace Jobs

open Lib (getElem?_snoc getElem?_set_cases)

variable {β α : Type}

namespace Job

variable (k : Kind β α) (j : Job β α) (now : Int) (free : Bool)

/-- What the steps do, and when. -/
inductive Steps : Act β → Job β α → Prop where
  | install (hrun : j.run = .scheduled) :
    Steps .install { j with run := .installed (j.status == .canceled), cancelFn := true }
  | installed (canceled : Bool) (hrun : j.run = .installed canceled) :
    Steps .installed { j with run := .waiting, ctxDone := j.ctxDone || canceled }
  | slot (hrun : j.run = .waiting) (hfree : free = true) :
    Steps .slot { j with run := .slotted, slot := true }
  | abort (hrun : j.run = .waiting) (hdone : j.ctxDone = true) :
    Steps .abort { j with run := .finishing .canceled k.blank }
  | activate (hrun : j.run = .slotted) :
    Steps .activate { j.setStatus .active with run := .working }
  | work (result : Except RunError β) (hrun : j.run = .working) :
    Steps (.work result) { j with run := .worked result }
  | judge (result : Except RunError β) (hrun : j.run = .worked result) :
    Steps .judge { j with run := .finishing (j.judged k result).1 (j.judged k result).2 }
  | finish (st : Status) (outcome : α) (hrun : j.run = .finishing st outcome) :
    Steps .finish
      { (j.finish now st outcome).1 with run := .finished st (j.finish now st outcome).2 }
  | announce (st : Status) (first : Bool) (hrun : j.run = .finished st first) :
    Steps .announce { j.announce k st first with run := .leaving }
  | leave (hrun : j.run = .leaving) :
    Steps .leave { j with run := .left, ctxDone := true, slot := false }
  | timeout (hrun : j.run ≠ .scheduled) : Steps .timeout { j with ctxDone := true }
  | cancel : Steps .cancel (j.cancel now)
  | canceled (n : Nat) (c : CancelCall) (hcall : j.cancels[n]? = some c)
      (hreturned : c.returned = false) :
    Steps (.canceled n) { j with
      cancels := j.cancels.set n { c with returned := true }
      ctxDone := j.ctxDone || c.fn }

variable {k j now free}

theorem step_cases {a : Act β} {j' : Job β α} (h : j.step k now free a = some j') :
    Steps k j now free a j' := by
  cases a <;> simp only [step] at h
  case install =>
    split at h <;> cases h
    exact .install ‹_›
  case installed =>
    split at h <;> cases h
    exact .installed _ ‹_›
  case slot =>
    split at h <;> simp only [Option.ite_none_right_eq_some, Option.some.injEq, reduceCtorEq] at h
    obtain ⟨hfree, rfl⟩ := h
    exact .slot ‹_› hfree
  case abort =>
    split at h <;> simp only [Option.ite_none_right_eq_some, Option.some.injEq, reduceCtorEq] at h
    obtain ⟨hdone, rfl⟩ := h
    exact .abort ‹_› hdone
  case activate =>
    split at h <;> cases h
    exact .activate ‹_›
  case work result =>
    split at h <;> cases h
    exact .work result ‹_›
  case judge =>
    split at h <;> cases h
    exact .judge _ ‹_›
  case finish =>
    split at h <;> cases h
    exact .finish _ _ ‹_›
  case announce =>
    split at h <;> cases h
    exact .announce _ _ ‹_›
  case leave =>
    split at h <;> cases h
    exact .leave ‹_›
  case timeout =>
    split at h
    · cases h
    · next hrun =>
      cases h
      exact .timeout fun hscheduled => hrun (by simp [hscheduled])
  case cancel =>
    cases h
    exact .cancel
  case canceled n =>
    split at h
    · next c hcall =>
      split at h
      · cases h
      · next hreturned =>
        cases h
        exact .canceled n c hcall (by simpa using hreturned)
    · cases h

/-! ## A job that has ended -/

/-- What is to stay of a job that has ended. -/
structure Same (j j' : Job β α) : Prop where
  status : j'.status = j.status
  outcome : j'.outcome = j.outcome
  finishedAt : j'.finishedAt = j.finishedAt

theorem Same.trans {j j' j'' : Job β α} (h : Same j j') (h' : Same j' j'') : Same j j'' :=
  ⟨h'.status.trans h.status, h'.outcome.trans h.outcome, h'.finishedAt.trans h.finishedAt⟩

/-- No step changes how a job has ended. -/
theorem Steps.same {a : Act β} {j' : Job β α} (h : Steps k j now free a j')
    (hended : j.status.terminal = true) : Same j j' := by
  cases h with
  | activate | finish | cancel => constructor <;> simp [setStatus, Job.finish, Job.cancel, hended]
  | announce st first =>
    unfold Job.announce
    split <;> exact ⟨rfl, rfl, rfl⟩
  | _ => exact ⟨rfl, rfl, rfl⟩

/-! ## A job that was cancelled -/

/-- The run is to tear down the context by itself, or it is torn down. -/
def Armed (j : Job β α) : Prop :=
  match j.run with
  | .scheduled => j.status = .canceled
  | .installed canceled => canceled = true
  | _ => j.ctxDone = true

/-- The cancel function is installed from the run's first step on. A cancel call that finds it
has called it when it returns, and an effective one that does not find it leaves its mark. -/
structure Torn (j : Job β α) : Prop where
  installed : j.cancelFn = false → j.run = .scheduled
  called : ∀ c ∈ j.cancels, c.fn = true → c.returned = true → j.ctxDone = true
  marked : ∀ c ∈ j.cancels, c.effective = true → c.fn = false → j.Armed

theorem torn_new (outcome : α) (inbox : Bool) : Torn ({ outcome, inbox } : Job β α) :=
  ⟨fun _ => rfl, fun _ hc => (nomatch hc), fun _ hc => (nomatch hc)⟩

/-- A step of the run after `setCancel`, which leaves the calls alone. -/
theorem Torn.later (h : Torn j) {j' : Job β α} (hcancels : j'.cancels = j.cancels)
    (hfn : j'.cancelFn = j.cancelFn) (hscheduled : j.run ≠ .scheduled)
    (hdone : j.ctxDone = true → j'.ctxDone = true) (harmed : j.Armed → j'.Armed) : Torn j' where
  installed hfalse := absurd (h.installed (hfn ▸ hfalse)) hscheduled
  called c hc hcfn hret := hdone (h.called c (hcancels ▸ hc) hcfn hret)
  marked c hc heff hcfn := harmed (h.marked c (hcancels ▸ hc) heff hcfn)

/-- A step that leaves the run where it is, and what was torn down. -/
theorem Armed.stays {j' : Job β α} (h : j.Armed) (hrun : j'.run = j.run)
    (hstatus : j.status = .canceled → j'.status = .canceled)
    (hdone : j.ctxDone = true → j'.ctxDone = true) : j'.Armed := by
  unfold Armed at h ⊢
  rw [hrun]
  split at h
  · exact hstatus h
  · exact h
  · exact hdone h

theorem Torn.cancel (h : Torn j) : Torn (j.cancel now) := by
  have hrun : (j.cancel now).run = j.run := by unfold Job.cancel; dsimp only; split <;> rfl
  have hfn : (j.cancel now).cancelFn = j.cancelFn := by
    unfold Job.cancel; dsimp only; split <;> rfl
  have hdone : (j.cancel now).ctxDone = j.ctxDone := by
    unfold Job.cancel; dsimp only; split <;> rfl
  have hcancels : (j.cancel now).cancels =
      j.cancels ++ [{ fn := j.cancelFn, effective := !j.status.terminal }] := by
    unfold Job.cancel; dsimp only; split <;> rfl
  have hstatus : j.status = .canceled → (j.cancel now).status = .canceled := by
    intro hc
    simp [Job.cancel, hc, Status.terminal]
  refine ⟨fun hfalse => hrun.trans (h.installed (hfn ▸ hfalse)), fun c hc hcfn hret => ?_,
    fun c hc heff hcfn => ?_⟩
  · rw [hcancels, List.mem_append, List.mem_singleton] at hc
    rcases hc with hc | rfl
    · exact hdone.trans (h.called c hc hcfn hret)
    · cases hret
  · rw [hcancels, List.mem_append, List.mem_singleton] at hc
    rcases hc with hc | rfl
    · exact (h.marked c hc heff hcfn).stays hrun hstatus fun hd => hdone.trans hd
    · -- it found no function, so the run will find its mark
      simp only [Bool.not_eq_true'] at heff
      have hscheduled := h.installed hcfn
      simp [Armed, hscheduled, Job.cancel, heff]

theorem Torn.canceled (h : Torn j) {n : Nat} {c : CancelCall} (hcall : j.cancels[n]? = some c) :
    Torn { j with
      cancels := j.cancels.set n { c with returned := true }
      ctxDone := j.ctxDone || c.fn } := by
  have hmem := List.mem_of_getElem? hcall
  refine ⟨h.installed, fun c' hc' hcfn hret => ?_, fun c' hc' heff hcfn => ?_⟩
  · rcases List.mem_or_eq_of_mem_set hc' with hc' | rfl
    · simp [h.called c' hc' hcfn hret]
    · simp only at hcfn
      simp [hcfn]
  · have harmed : j.Armed := by
      rcases List.mem_or_eq_of_mem_set hc' with hc' | rfl
      · exact h.marked c' hc' heff hcfn
      · exact h.marked c hmem heff hcfn
    exact harmed.stays rfl id fun hd => by simp [hd]

theorem Torn.step (h : Torn j) {a : Act β} {j' : Job β α} (hstep : Steps k j now free a j') :
    Torn j' := by
  cases hstep with
  | install hrun =>
    refine ⟨fun hfalse => (nomatch hfalse), h.called, fun c hc heff hcfn => ?_⟩
    have harmed := h.marked c hc heff hcfn
    simp only [Armed, hrun] at harmed
    simp [Armed, harmed]
  | installed canceled hrun =>
    refine h.later rfl rfl (by simp [hrun]) (fun hd => by simp [hd]) fun harmed => ?_
    simp only [Armed, hrun] at harmed
    simp [Armed, harmed]
  | activate hrun =>
    have hset : (j.setStatus .active).cancels = j.cancels ∧
        (j.setStatus .active).cancelFn = j.cancelFn ∧
        (j.setStatus .active).ctxDone = j.ctxDone := by
      unfold setStatus
      split <;> exact ⟨rfl, rfl, rfl⟩
    refine h.later hset.1 hset.2.1 (by simp [hrun]) (fun hd => hset.2.2.trans hd) fun harmed => ?_
    simp only [Armed, hrun] at harmed
    exact hset.2.2.trans harmed
  | finish st outcome hrun =>
    have hfin : (j.finish now st outcome).1.cancels = j.cancels ∧
        (j.finish now st outcome).1.cancelFn = j.cancelFn ∧
        (j.finish now st outcome).1.ctxDone = j.ctxDone := by
      unfold Job.finish
      split <;> exact ⟨rfl, rfl, rfl⟩
    refine h.later hfin.1 hfin.2.1 (by simp [hrun]) (fun hd => hfin.2.2.trans hd) fun harmed => ?_
    simp only [Armed, hrun] at harmed
    exact hfin.2.2.trans harmed
  | announce st first hrun =>
    have hann : (j.announce k st first).cancels = j.cancels ∧
        (j.announce k st first).cancelFn = j.cancelFn ∧
        (j.announce k st first).ctxDone = j.ctxDone := by
      unfold Job.announce
      split <;> exact ⟨rfl, rfl, rfl⟩
    refine h.later hann.1 hann.2.1 (by simp [hrun]) (fun hd => hann.2.2.trans hd) fun harmed => ?_
    simp only [Armed, hrun] at harmed
    exact hann.2.2.trans harmed
  | slot hrun | abort hrun | work _ hrun | judge _ hrun =>
    refine h.later rfl rfl (by simp [hrun]) id fun harmed => ?_
    simpa only [Armed, hrun] using harmed
  | leave hrun => exact h.later rfl rfl (by simp [hrun]) (fun _ => rfl) fun _ => rfl
  | timeout hrun =>
    exact h.later rfl rfl hrun (fun _ => rfl) fun harmed => harmed.stays rfl id fun _ => rfl
  | cancel => exact h.cancel
  | canceled n c hcall => exact h.canceled hcall

/-! ## What is announced -/

/-- A run announces at its end, once. -/
def Announced (j : Job β α) : Prop :=
  match j.run with
  | .leaving | .left => j.announced.length ≤ 1
  | _ => j.announced = []

theorem announced_new (outcome : α) (inbox : Bool) : Announced ({ outcome, inbox } : Job β α) := rfl

theorem Announced.step (h : Announced j) {a : Act β} {j' : Job β α}
    (hstep : Steps k j now free a j') : Announced j' := by
  cases hstep with
  | announce st first hrun =>
    simp only [Announced, hrun] at h
    simp only [Announced, Job.announce]
    split <;> simp [h]
  | activate hrun =>
    simp only [Announced, hrun] at h
    simp only [Announced, setStatus]
    split <;> exact h
  | finish st outcome hrun =>
    simp only [Announced, hrun] at h
    simp only [Announced, Job.finish]
    split <;> exact h
  | cancel =>
    have hsame : (j.cancel now).run = j.run ∧ (j.cancel now).announced = j.announced := by
      unfold Job.cancel
      dsimp only
      split <;> exact ⟨rfl, rfl⟩
    simpa only [Announced, hsame] using h
  | timeout | canceled => exact h
  | install hrun | installed _ hrun | slot hrun | abort hrun | work _ hrun | judge _ hrun
  | leave hrun => simpa only [Announced, hrun] using h

theorem Announced.once (h : Announced j) : j.announced.length ≤ 1 := by
  unfold Announced at h
  split at h <;> simp_all

end Job

/-! ## Runs -/

namespace World

open Job (Steps Same Torn Announced)

variable {k : Kind β α} {w w' : World β α}

/-- A job goes on as it is, or takes a step. -/
def Goes (k : Kind β α) (w : World β α) (j j' : Job β α) : Prop :=
  j' = j ∨ ∃ a, Steps k j w.clock (w.free k) a j'

theorem step_keeps {e : Event β} (h : w.step k e = some w') {n : Nat} {j : Job β α}
    (hj : w.jobs[n]? = some j) : ∃ j', w'.jobs[n]? = some j' ∧ Goes k w j j' := by
  have hlt := (List.getElem?_eq_some_iff.mp hj).1
  cases e with
  | tick d =>
    cases h
    exact ⟨j, hj, .inl rfl⟩
  | add inbox =>
    cases h
    exact ⟨j, by simp [List.getElem?_append_left hlt, hj], .inl rfl⟩
  | act m a =>
    simp only [World.step] at h
    split at h
    · next i hi =>
      obtain ⟨i', hstep, rfl⟩ := Option.map_eq_some_iff.mp h
      by_cases hm : m = n
      · subst hm
        cases hj.symm.trans hi
        exact ⟨i', by simp [hlt], .inr ⟨a, Job.step_cases hstep⟩⟩
      · exact ⟨j, by simp [List.getElem?_set_ne hm, hj], .inl rfl⟩
    · cases h

/-- Every job was added, or was there and goes on. -/
theorem step_from {e : Event β} (h : w.step k e = some w') {n : Nat} {j' : Job β α}
    (hj' : w'.jobs[n]? = some j') :
    (∃ inbox, j' = { outcome := k.blank, inbox }) ∨
      ∃ j, w.jobs[n]? = some j ∧ Goes k w j j' := by
  cases hj : w.jobs[n]? with
  | some j =>
    obtain ⟨i, hi, hgoes⟩ := step_keeps h hj
    cases hi.symm.trans hj'
    exact .inr ⟨j, rfl, hgoes⟩
  | none =>
    left
    cases e with
    | tick d =>
      cases h
      exact (nomatch hj.symm.trans hj')
    | add inbox =>
      cases h
      rcases getElem?_snoc.mp hj' with hold | ⟨-, rfl⟩
      · exact (nomatch hj.symm.trans hold)
      · exact ⟨inbox, rfl⟩
    | act m a =>
      simp only [World.step] at h
      split at h
      · next i hi =>
        obtain ⟨i', -, rfl⟩ := Option.map_eq_some_iff.mp h
        rcases getElem?_set_cases hj' with ⟨rfl, -⟩ | ⟨-, hold⟩
        · exact (nomatch hj.symm.trans hi)
        · exact (nomatch hj.symm.trans hold)
      · cases h

/-- What holds of a new job and is kept by its steps holds of every job. -/
theorem every_job {P : Job β α → Prop} (hnew : ∀ inbox, P { outcome := k.blank, inbox })
    (hstep : ∀ {j : Job β α} {now free}, P j → ∀ {a j'}, Steps k j now free a j' → P j')
    {clock : Int} {es : List (Event β)} (h : Runs k (start clock) es w) {n : Nat} {j : Job β α}
    (hj : w.jobs[n]? = some j) : P j := by
  have hall : ∀ (n : Nat) j, w.jobs[n]? = some j → P j := by
    refine h.invariant (P := fun w => ∀ (n : Nat) j, w.jobs[n]? = some j → P j)
      (fun _ _ hj => by simp [start] at hj) fun w e w' hi _ hs n j' hj' => ?_
    rcases step_from hs hj' with ⟨inbox, rfl⟩ | ⟨j, hj, rfl | ⟨a, ha⟩⟩
    · exact hnew inbox
    · exact hi n j' hj
    · exact hstep (hi n j hj) ha
  exact hall n j hj

/-- A job that has ended is the same ever after. -/
theorem same_of_runs {es : List (Event β)} (h : Runs k w es w') {n : Nat} {j : Job β α}
    (hj : w.jobs[n]? = some j) (hended : j.status.terminal = true) :
    ∃ j', w'.jobs[n]? = some j' ∧ Same j j' := by
  refine h.invariant (P := fun w => ∃ j', w.jobs[n]? = some j' ∧ Same j j')
    ⟨j, hj, rfl, rfl, rfl⟩ fun w e w' hi _ hs => ?_
  obtain ⟨i, hi, hsame⟩ := hi
  obtain ⟨i', hi', rfl | ⟨a, ha⟩⟩ := step_keeps hs hi
  · exact ⟨i', hi', hsame⟩
  · exact ⟨i', hi', hsame.trans (ha.same (hsame.status ▸ hended))⟩

/-- One step of one job. -/
theorem runs_act {n : Nat} {j j' : Job β α} (a : Act β) (hj : w.jobs[n]? = some j)
    (h : j.step k w.clock (w.free k) a = some j') :
    Runs k w [.act n a] { w with jobs := w.jobs.set n j' } :=
  Lib.Run.single trivial (by simp [World.step, hj, h])

/-- The steps that are to tear down a cancelled job's context wait for nothing: `setCancel`, and
the end of the cancel call. -/
theorem torn_ahead {n m : Nat} {j : Job β α} {c : CancelCall} (hj : w.jobs[n]? = some j)
    (htorn : Torn j) (hc : j.cancels[m]? = some c) (heff : c.effective = true) :
    ∃ es w' j', Runs k w es w' ∧ w'.jobs[n]? = some j' ∧ j'.ctxDone = true ∧
      ∀ e ∈ es, e = .act n .install ∨ e = .act n .installed ∨ e = .act n (.canceled m) := by
  have hlt := (List.getElem?_eq_some_iff.mp hj).1
  by_cases hdone : j.ctxDone = true
  · exact ⟨[], w, j, .nil, hj, hdone, fun _ he => (nomatch he)⟩
  have hmem := List.mem_of_getElem? hc
  cases hfn : c.fn with
  | true =>
    -- the call has yet to call what it found
    have hreturned : c.returned = false := by
      by_contra hret
      exact hdone (htorn.called c hmem hfn (by simpa using hret))
    have hstep : j.step k w.clock (w.free k) (.canceled m) = some { j with
        cancels := j.cancels.set m { c with returned := true }
        ctxDone := j.ctxDone || c.fn } := by
      simp [Job.step, hc, hreturned]
    exact ⟨_, _, _, runs_act _ hj hstep, List.getElem?_set_self hlt, by simp [hfn], by simp⟩
  | false =>
    have harmed := htorn.marked c hmem heff hfn
    cases hrun : j.run with
    | scheduled =>
      simp only [Job.Armed, hrun] at harmed
      have hinstall : j.step k w.clock (w.free k) .install =
          some { j with run := .installed true, cancelFn := true } := by
        simp [Job.step, hrun, harmed]
      have hset := List.getElem?_set_self (a := { j with run := .installed true, cancelFn := true })
        hlt
      have hinstalled := runs_act (k := k)
        (w := { w with jobs := w.jobs.set n { j with run := .installed true, cancelFn := true } })
        .installed hset rfl
      exact ⟨_, _, _, (runs_act _ hj hinstall).append hinstalled,
        List.getElem?_set_self (by simpa using hlt), by simp, by simp⟩
    | installed canceled =>
      simp only [Job.Armed, hrun] at harmed
      have hstep : j.step k w.clock (w.free k) .installed =
          some { j with run := .waiting, ctxDone := j.ctxDone || canceled } := by
        simp [Job.step, hrun]
      exact ⟨_, _, _, runs_act _ hj hstep, List.getElem?_set_self hlt, by simp [harmed], by simp⟩
    | waiting | slotted | working | worked | finishing | finished | leaving | left =>
      simp only [Job.Armed, hrun] at harmed
      exact absurd harmed hdone

end World

/-- What holds of the jobs of a kind, for all ways their steps can come after one another. -/
structure Settles (k : Kind β α) : Prop where
  /-- A job that has ended has the same status, error and outcome ever after. -/
  stable : ∀ {clock es w es' w'}, World.Runs k (World.start clock) es w → World.Runs k w es' w' →
    ∀ {n : Nat} {j}, w.jobs[n]? = some j → j.status.terminal = true →
      ∃ j', w'.jobs[n]? = some j' ∧ j'.status = j.status ∧ j'.outcome = j.outcome
  /-- Once a cancel call that came before the end has returned, and the run is past its
  `setCancel`, the context is torn down. -/
  torn : ∀ {clock es w}, World.Runs k (World.start clock) es w →
    ∀ {n : Nat} {j}, w.jobs[n]? = some j → ∀ c ∈ j.cancels, c.effective = true →
      c.returned = true → j.run ≠ .scheduled → (∀ canceled, j.run ≠ .installed canceled) →
      j.ctxDone = true
  /-- Until then, the next steps of these two are there to be taken, and tear it down. -/
  ahead : ∀ {clock es w}, World.Runs k (World.start clock) es w →
    ∀ {n m : Nat} {j c}, w.jobs[n]? = some j → j.cancels[m]? = some c → c.effective = true →
      ∃ es' w' j', World.Runs k w es' w' ∧ w'.jobs[n]? = some j' ∧ j'.ctxDone = true ∧
        ∀ e ∈ es', e = .act n .install ∨ e = .act n .installed ∨ e = .act n (.canceled m)
  /-- The end of a job is announced at most once. -/
  once : ∀ {clock es w}, World.Runs k (World.start clock) es w →
    ∀ {n : Nat} {j}, w.jobs[n]? = some j → j.announced.length ≤ 1

theorem settles (k : Kind β α) : Settles k where
  stable _ h' _ _ hj hended := by
    obtain ⟨j', hj', hsame⟩ := World.same_of_runs h' hj hended
    exact ⟨j', hj', hsame.status, hsame.outcome⟩
  torn h _ j hj c hc heff hret hscheduled hinstalled := by
    have htorn := World.every_job (Job.torn_new k.blank) (fun ht => ht.step) h hj
    cases hfn : c.fn with
    | true => exact htorn.called c hc hfn hret
    | false =>
      have harmed := htorn.marked c hc heff hfn
      unfold Job.Armed at harmed
      split at harmed
      · next hrun => exact absurd hrun hscheduled
      · next canceled hrun => exact absurd hrun (hinstalled canceled)
      · exact harmed
  ahead h _ _ _ _ hj hc heff :=
    World.torn_ahead hj (World.every_job (Job.torn_new k.blank) (fun ht => ht.step) h hj) hc heff
  once h _ _ hj :=
    (World.every_job (Job.announced_new k.blank) (fun ha => ha.step) h hj).once

/-- Upload jobs and archive jobs settle. -/
theorem jobs_settle : Settles uploads ∧ Settles archives := ⟨settles uploads, settles archives⟩

-- cancelled between being added and the start of its run, and the call returns first
example : ∃ w j, World.Runs uploads (World.start 0) [.add false, .act 0 .cancel, .act 0 (.canceled 0),
    .act 0 .install, .act 0 .installed] w ∧
    w.jobs[0]? = some j ∧ j.status = .canceled ∧ j.ctxDone = true :=
  ⟨_, _, Lib.Run.of_exec _ rfl, rfl, rfl, rfl⟩

end Jobs
