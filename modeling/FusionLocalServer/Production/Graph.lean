import FusionLocalServer.Production.Invariant

/-!
# The plan of a job stays a well-formed graph

`GraphOk` is what every job's plan is at all times: its edges join steps of the plan and
close no cycle, an edge leaves a decision by one of its results and any other step plainly,
no edge is there twice, and a step holds only what its kind may hold.

`PlanOk` adds what carries it from step to step: a step's id is made from its number, and
the numbers of the steps are distinct and below the counter, so an id names one step at
most. Each kind of write is shown to keep `PlanOk` under a condition on the write, and each
operation meets the condition, its writes taken in an order in which no edge dangles in
between.
-/

namespace Production

open Lib (Time View Slice)
open Lib.Memory

/-- What a step of its kind may hold. -/
def ContentsOk (st : StepVal) : Prop :=
  if IsDecision st.kind then st.planDocs = [] ∧ st.placeholders = [] else st.results = []

/-- The edge leaves the step as the step's kind has it. -/
def LeavesOk (st : StepVal) (resultID : String) : Prop :=
  if IsDecision st.kind then ∃ r ∈ st.results, r.id = resultID else resultID = ""

/-- The plan of a job is a well-formed graph. -/
structure GraphOk (j : JobVal) : Prop where
  ends : ∀ e ∈ j.edges,
    (∃ st ∈ j.steps, st.id = e.fromStep) ∧ ∃ st ∈ j.steps, st.id = e.toStep
  acyclic : Lib.Graph.Acyclic (links j.edges)
  leaves : ∀ e ∈ j.edges, ∀ st ∈ j.steps, st.id = e.fromStep → LeavesOk st e.fromResultId
  distinct : (j.edges.map fun e => (e.fromStep, e.fromResultId, e.toStep)).Nodup
  contents : ∀ st ∈ j.steps, ContentsOk st

/-- The plan is a well-formed graph whose step ids are those of the counter. -/
structure PlanOk (j : JobVal) : Prop extends GraphOk j where
  counter : 1 ≤ j.nextStepNum
  ids : ∀ st ∈ j.steps, st.id = childId "s" st.num ∧ st.num < j.nextStepNum
  nums : (j.steps.map fun st => st.num).Nodup

/-! ## Writes -/

section Writes

variable {j j' : JobVal}

/-- Only the counter, the steps and the edges matter. -/
theorem PlanOk.of_same (h : PlanOk j) (hcounter : j'.nextStepNum = j.nextStepNum)
    (hsteps : j'.steps = j.steps) (hedges : j'.edges = j.edges) : PlanOk j' := by
  obtain ⟨⟨hends, hacyclic, hleaves, hdistinct, hcontents⟩, hone, hids, hnums⟩ := h
  refine ⟨⟨?_, ?_, ?_, ?_, ?_⟩, ?_, ?_, ?_⟩
  all_goals simp only [hcounter, hsteps, hedges]
  all_goals assumption

/-- An id names one step at most. -/
theorem PlanOk.id_inj (h : PlanOk j) {i k : Nat} {st st' : StepVal} (hi : j.steps[i]? = some st)
    (hk : j.steps[k]? = some st') (hid : st.id = st'.id) : i = k := by
  have hnum : st.num = st'.num := by
    rw [(h.ids st (List.mem_of_getElem? hi)).1, (h.ids st' (List.mem_of_getElem? hk)).1] at hid
    exact childId_injective hid
  have hlt : i < (j.steps.map (·.num)).length := by
    rw [List.length_map]
    exact (List.getElem?_eq_some_iff.mp hi).1
  refine (List.getElem?_inj hlt h.nums).mp ?_
  rw [List.getElem?_map, List.getElem?_map, hi, hk, Option.map_some, Option.map_some, hnum]

/-- Edges are dropped. -/
theorem PlanOk.sublist (h : PlanOk j) {edges : List Edge} (hsub : edges.Sublist j.edges) :
    PlanOk { j with edges } where
  ends e he := h.ends e (hsub.subset he)
  acyclic := h.acyclic.mono fun _ hl => (hsub.map _).subset hl
  leaves e he := h.leaves e (hsub.subset he)
  distinct := (hsub.map _).nodup h.distinct
  contents := h.contents
  counter := h.counter
  ids := h.ids
  nums := h.nums

/-- An edge is added. -/
theorem PlanOk.addEdge (h : PlanOk j) {e : Edge} {src dst : StepVal} {i : Nat}
    (hsrc : j.steps[i]? = some src) (hfrom : src.id = e.fromStep) (hdst : dst ∈ j.steps)
    (hto : dst.id = e.toStep) (hleaves : LeavesOk src e.fromResultId)
    (hnew : ∀ e' ∈ j.edges, ¬ (e'.fromStep = e.fromStep ∧ e'.fromResultId = e.fromResultId ∧
      e'.toStep = e.toStep))
    (hcycle : reaches j e.toStep e.fromStep = false) : PlanOk { j with edges := j.edges ++ [e] } where
  ends e' he' := by
    rcases List.mem_append.mp he' with he' | he'
    · exact h.ends e' he'
    · rw [List.mem_singleton.mp he']
      exact ⟨⟨src, List.mem_of_getElem? hsrc, hfrom⟩, dst, hdst, hto⟩
  acyclic := by
    rw [links, List.map_append]
    refine h.acyclic.append fun hpath => ?_
    have hreaches : reaches j e.toStep e.fromStep = true := Lib.Graph.reaches_iff.mpr hpath
    rw [hcycle] at hreaches
    cases hreaches
  leaves e' he' st hst hid := by
    rcases List.mem_append.mp he' with he' | he'
    · exact h.leaves e' he' st hst hid
    · rw [List.mem_singleton.mp he'] at hid ⊢
      obtain ⟨k, hk⟩ := List.getElem?_of_mem hst
      have hik := h.id_inj hsrc hk (hfrom.trans hid.symm)
      rw [← hik, hsrc] at hk
      cases hk
      exact hleaves
  distinct := by
    rw [List.map_append]
    refine List.nodup_append.mpr ⟨h.distinct, List.nodup_singleton _, fun x hx y hy heq => ?_⟩
    obtain ⟨e', he', rfl⟩ := List.mem_map.mp hx
    rw [List.map_singleton, List.mem_singleton] at hy
    subst hy
    simp only [Prod.mk.injEq] at heq
    exact hnew e' he' heq
  contents := h.contents
  counter := h.counter
  ids := h.ids
  nums := h.nums

/-- A step is added, under the next number. -/
theorem PlanOk.addStep (h : PlanOk j) {st : StepVal} (hid : st.id = childId "s" st.num)
    (hnum : st.num = j.nextStepNum) (hcontents : ContentsOk st) :
    PlanOk { j with steps := j.steps ++ [st], nextStepNum := j.nextStepNum + 1 } where
  ends e he := by
    obtain ⟨⟨src, hsrc, hfrom⟩, dst, hdst, hto⟩ := h.ends e he
    exact ⟨⟨src, List.mem_append_left _ hsrc, hfrom⟩, dst, List.mem_append_left _ hdst, hto⟩
  acyclic := h.acyclic
  leaves e he st' hst' hfrom := by
    rcases List.mem_append.mp hst' with hst' | hst'
    · exact h.leaves e he st' hst' hfrom
    · -- the edge's own source has the id already, under a smaller number
      rw [List.mem_singleton.mp hst'] at hfrom
      obtain ⟨src, hsrc, hsrcid⟩ := (h.ends e he).1
      obtain ⟨hsid, hlt⟩ := h.ids src hsrc
      rw [← hsrcid, hsid, hid] at hfrom
      have := childId_injective hfrom
      omega
  distinct := h.distinct
  contents st' hst' := by
    rcases List.mem_append.mp hst' with hst' | hst'
    · exact h.contents st' hst'
    · rw [List.mem_singleton.mp hst']
      exact hcontents
  counter := by
    have := h.counter
    show 1 ≤ j.nextStepNum + 1
    omega
  ids st' hst' := by
    show st'.id = childId "s" st'.num ∧ st'.num < j.nextStepNum + 1
    rcases List.mem_append.mp hst' with hst' | hst'
    · exact ⟨(h.ids st' hst').1, by have := (h.ids st' hst').2; omega⟩
    · rw [List.mem_singleton.mp hst']
      exact ⟨hid, by omega⟩
  nums := by
    rw [List.map_append]
    refine List.nodup_append.mpr ⟨h.nums, List.nodup_singleton _, fun x hx y hy heq => ?_⟩
    obtain ⟨st', hst', rfl⟩ := List.mem_map.mp hx
    rw [List.map_singleton, List.mem_singleton] at hy
    have := (h.ids st' hst').2
    omega

/-- A step without edges is removed. -/
theorem PlanOk.removeStep (h : PlanOk j) {i : Nat} {st : StepVal} (hget : j.steps[i]? = some st)
    (hfree : ∀ e ∈ j.edges, e.fromStep ≠ st.id ∧ e.toStep ≠ st.id) :
    PlanOk { j with steps := j.steps.eraseIdx i } := by
  have hsub : (j.steps.eraseIdx i).Sublist j.steps := List.eraseIdx_sublist ..
  have hkept : ∀ st' ∈ j.steps, st'.id ≠ st.id → st' ∈ j.steps.eraseIdx i := by
    intro st' hst' hne
    obtain ⟨k, hk⟩ := List.getElem?_of_mem hst'
    refine List.mem_eraseIdx_iff_getElem?.mpr ⟨k, fun hik => hne ?_, hk⟩
    rw [hik, hget] at hk
    cases hk
    rfl
  refine ⟨⟨fun e he => ?_, h.acyclic, fun e he st' hst' => h.leaves e he st' (hsub.subset hst'),
    h.distinct, fun st' hst' => h.contents st' (hsub.subset hst')⟩, h.counter,
    fun st' hst' => h.ids st' (hsub.subset hst'), (hsub.map _).nodup h.nums⟩
  obtain ⟨⟨src, hsrc, hfrom⟩, dst, hdst, hto⟩ := h.ends e he
  obtain ⟨hfree₁, hfree₂⟩ := hfree e he
  exact ⟨⟨src, hkept src hsrc (hfrom ▸ hfree₁), hfrom⟩, dst, hkept dst hdst (hto ▸ hfree₂), hto⟩

/-- A step is changed, and keeps its id and kind, and the results edges leave it by. -/
theorem PlanOk.onStep (h : PlanOk j) {i : Nat} {st : StepVal} (hget : j.steps[i]? = some st)
    {f : StepVal → StepVal} (hid : (f st).id = st.id) (hnum : (f st).num = st.num)
    (hcontents : ContentsOk (f st))
    (hleaves : ∀ e ∈ j.edges, e.fromStep = st.id → LeavesOk st e.fromResultId →
      LeavesOk (f st) e.fromResultId) :
    PlanOk { j with steps := j.steps.modify i f } := by
  have hset : j.steps.modify i f = j.steps.set i (f st) := by
    refine List.ext_getElem? fun k => ?_
    obtain ⟨hi, hst⟩ := List.getElem?_eq_some_iff.mp hget
    rw [List.getElem?_modify, List.getElem?_set]
    by_cases hik : i = k
    · subst hik
      simp [hi, hst]
    · simp [hik]
  have hmem : ∀ st' ∈ j.steps.set i (f st), st' = f st ∨ st' ∈ j.steps := fun st' hst' =>
    (List.mem_or_eq_of_mem_set hst').symm
  have hnew : f st ∈ j.steps.set i (f st) :=
    List.mem_set (List.getElem?_eq_some_iff.mp hget).1 _
  have hnums : (j.steps.set i (f st)).map (fun st => st.num) = j.steps.map fun st => st.num := by
    rw [List.map_set, hnum]
    obtain ⟨hi, hst⟩ := List.getElem?_eq_some_iff.mp hget
    refine List.ext_getElem? fun k => ?_
    rw [List.getElem?_set]
    by_cases hik : i = k
    · subst hik
      simp [hi, hst]
    · simp [hik]
  have hstep : ∀ id, (∃ st' ∈ j.steps, st'.id = id) → ∃ st' ∈ j.steps.set i (f st), st'.id = id := by
    rintro id ⟨st', hst', rfl⟩
    obtain ⟨k, hk⟩ := List.getElem?_of_mem hst'
    by_cases hik : i = k
    · subst hik
      rw [hget] at hk
      cases hk
      exact ⟨f st, hnew, hid⟩
    · refine ⟨st', List.mem_of_getElem? (i := k) ?_, rfl⟩
      rw [List.getElem?_set_ne hik]
      exact hk
  rw [hset]
  refine ⟨⟨fun e he => ?_, h.acyclic, fun e he st' hst' hfrom => ?_, h.distinct,
    fun st' hst' => ?_⟩, h.counter, fun st' hst' => ?_, by rw [hnums]; exact h.nums⟩
  · exact ⟨hstep _ (h.ends e he).1, hstep _ (h.ends e he).2⟩
  · rcases hmem st' hst' with rfl | hst'
    · rw [hid] at hfrom
      exact hleaves e he hfrom.symm (h.leaves e he st (List.mem_of_getElem? hget) hfrom)
    · exact h.leaves e he st' hst' hfrom
  · rcases hmem st' hst' with rfl | hst'
    · exact hcontents
    · exact h.contents st' hst'
  · rcases hmem st' hst' with rfl | hst'
    · rw [hid, hnum]
      exact h.ids st (List.mem_of_getElem? hget)
    · exact h.ids st' hst'

theorem PlanOk.child (h : PlanOk j) : PlanOk (nextChild.apply j) := h.of_same rfl rfl rfl

/-- A step's time is set. -/
theorem PlanOk.touch (h : PlanOk j) (i : Nat) (now : Time) :
    PlanOk ((touchStep i now).apply j) := by
  cases hget : j.steps[i]? with
  | none =>
    refine h.of_same rfl ?_ rfl
    exact List.modify_eq_self (List.getElem?_eq_none_iff.mp hget)
  | some st =>
    exact h.onStep hget rfl rfl (h.contents st (List.mem_of_getElem? hget)) fun _ _ _ hl => hl

end Writes

/-! ## Operations on a job -/

theorem contentsOk_step {x : StepVal} (hkind : ¬ IsDecision x.kind) :
    ContentsOk x ↔ x.results = [] := by
  unfold ContentsOk
  rw [if_neg hkind]

theorem contentsOk_decision {x : StepVal} (hkind : IsDecision x.kind) :
    ContentsOk x ↔ x.planDocs = [] ∧ x.placeholders = [] := by
  unfold ContentsOk
  rw [if_pos hkind]

/-- An edit that fills nothing that was empty. -/
theorem contentsOk_of_empty {st st' : StepVal} (h : ContentsOk st) (hkind : st'.kind = st.kind)
    (hdocs : st.planDocs = [] → st'.planDocs = [])
    (hslots : st.placeholders = [] → st'.placeholders = [])
    (hresults : st.results = [] → st'.results = []) : ContentsOk st' := by
  unfold ContentsOk at h ⊢
  rw [hkind]
  by_cases hdecision : IsDecision st.kind
  · rw [if_pos hdecision] at h ⊢
    exact ⟨hdocs h.1, hslots h.2⟩
  · rw [if_neg hdecision] at h ⊢
    exact hresults h

/-- An edge leaves a step as it did while its result is among the step's. -/
theorem leavesOk_of_results {st st' : StepVal} {resultID : String} (h : LeavesOk st resultID)
    (hkind : st'.kind = st.kind)
    (hresults : ∀ r ∈ st.results, r.id = resultID → ∃ r' ∈ st'.results, r'.id = resultID) :
    LeavesOk st' resultID := by
  unfold LeavesOk at h ⊢
  rw [hkind]
  by_cases hdecision : IsDecision st.kind
  · rw [if_pos hdecision] at h ⊢
    obtain ⟨r, hr, hid⟩ := h
    exact hresults r hr hid
  · rwa [if_neg hdecision] at h ⊢

/-- Dropping a result leaves those of another id. -/
theorem leavesOk_removeAt {st : StepVal} {k : Nat} {r : DecisionResult} {resultID : String}
    (hget : st.results[k]? = some r) (hne : r.id ≠ resultID) (h : LeavesOk st resultID) :
    LeavesOk ((StepEdit.results (.removeAt k)).apply st) resultID := by
  refine leavesOk_of_results h rfl fun r' hr' hid => ?_
  obtain ⟨i, hi⟩ := List.getElem?_of_mem hr'
  refine ⟨r', List.mem_eraseIdx_iff_getElem?.mpr ⟨i, fun hik => hne ?_, hi⟩, hid⟩
  rw [hik, hget] at hi
  cases hi
  exact hid

theorem leavesOk_setAt {st : StepVal} {k : Nat} {r r' : DecisionResult} {resultID : String}
    (hget : st.results[k]? = some r) (hid : r'.id = r.id) (h : LeavesOk st resultID) :
    LeavesOk ((StepEdit.results (.setAt k r')).apply st) resultID := by
  refine leavesOk_of_results h rfl fun r'' hr'' hid' => ?_
  obtain ⟨i, hi⟩ := List.getElem?_of_mem hr''
  by_cases hik : k = i
  · subst hik
    rw [hget] at hi
    cases hi
    exact ⟨r', List.mem_set (List.getElem?_eq_some_iff.mp hget).1 _, hid.trans hid'⟩
  · refine ⟨r'', List.mem_of_getElem? (i := i) ?_, hid'⟩
    show (st.results.set k r')[i]? = some r''
    rw [List.getElem?_set_ne hik]
    exact hi

/-- A call on a job keeps its plan well-formed. -/
theorem planOk_call {now : Time} {c : JobCall} {op : JobOp} {j : JobVal} {edits : List JobEdit}
    (h : c.closure now = .ok op) (hop : op j = .ok edits) (hj : PlanOk j) :
    PlanOk (applyAll edits j) := by
  cases c with
  | updateJob p =>
    obtain ⟨f, rfl, hf⟩ := updateJob_ok h hop
    exact hj.of_same (hf _).2.1 rfl rfl
  | createStep d =>
    obtain ⟨st, hid, hnum, rfl⟩ := createStep_ok h hop
    refine hj.addStep (hnum ▸ hid) hnum ?_
    unfold ContentsOk newStep
    split
    · exact ⟨rfl, rfl⟩
    · rfl
  | updateStep stepID p =>
    obtain ⟨i, st, f, hget, rfl, hf⟩ := updateStep_ok h hop
    have hkind := (hf st.toStepHeader).2.2
    have hcontents := hj.contents st (List.mem_of_getElem? hget)
    refine hj.onStep hget (f := fun st => (StepEdit.fields f).apply st) (hf _).1 (hf _).2.1
      (contentsOk_of_empty hcontents hkind (fun hc => hc) (fun hc => hc) fun hc => hc) ?_
    exact fun e _ _ hl => leavesOk_of_results hl hkind fun r hr hid => ⟨r, hr, hid⟩
  | deleteStep stepID =>
    obtain ⟨i, st, hget, hid, rfl⟩ := deleteStep_ok h hop
    -- the edges go first, so that none is left without a step
    have hedges := hj.sublist (List.filter_sublist
      (p := fun e => e.fromStep ≠ stepID && e.toStep ≠ stepID))
    refine hedges.removeStep hget fun e he => ?_
    have hkeep := (List.mem_filter.mp he).2
    rw [hid]
    simpa using hkeep
  | addEdge fromStep fromResultID toStep =>
    obtain ⟨i, src, dst, hdst, e, hsrc, hfrom, hto, hleaves, hnew, hcycle, -, rfl⟩ := addEdge_ok h hop
    exact (hj.addEdge hsrc hfrom hdst hto hleaves hnew hcycle).of_same rfl rfl rfl
  | deleteEdge edgeID =>
    obtain ⟨k, rfl⟩ := deleteEdge_ok h hop
    exact hj.sublist (List.eraseIdx_sublist ..)
  | attachPlanDoc stepID doc addedBy =>
    obtain ⟨i, st, pd, hget, hkind, -, rfl⟩ := attachPlanDoc_ok h hop
    have hcontents := (contentsOk_step hkind).mp (hj.contents st (List.mem_of_getElem? hget))
    exact ((hj.onStep hget (f := fun st => (StepEdit.planDocs (.append pd)).apply st) rfl rfl
      ((contentsOk_step (x := (StepEdit.planDocs (.append pd)).apply st) hkind).mpr hcontents)
      fun _ _ _ hl => hl).child).touch i now
  | removePlanDoc stepID planDocID =>
    obtain ⟨i, st, k, hget, rfl⟩ := removePlanDoc_ok h hop
    have hcontents := hj.contents st (List.mem_of_getElem? hget)
    exact (hj.onStep hget (f := fun st => (StepEdit.planDocs (.removeAt k)).apply st) rfl rfl
      (contentsOk_of_empty hcontents rfl (fun hc => by simp [StepEdit.apply, SliceEdit.apply, hc])
        (fun hc => hc) fun hc => hc) fun _ _ _ hl => hl).touch i now
  | addResult stepID d =>
    obtain ⟨i, st, r, hget, hkind, -, rfl⟩ := addResult_ok h hop
    have hcontents := (contentsOk_decision hkind).mp (hj.contents st (List.mem_of_getElem? hget))
    refine ((hj.onStep hget (f := fun st => (StepEdit.results (.append r)).apply st) rfl rfl
      ((contentsOk_decision (x := (StepEdit.results (.append r)).apply st) hkind).mpr hcontents)
      fun e _ _ hl => ?_).child).touch i now
    exact leavesOk_of_results hl rfl fun r' hr' hid => ⟨r', List.mem_append_left _ hr', hid⟩
  | updateResult stepID resultID p =>
    obtain ⟨i, st, k, r, r', hget, hr, hid, rfl⟩ := updateResult_ok h hop
    have hcontents := hj.contents st (List.mem_of_getElem? hget)
    exact (hj.onStep hget (f := fun st => (StepEdit.results (.setAt k r')).apply st) rfl rfl
      (contentsOk_of_empty hcontents rfl (fun hc => hc) (fun hc => hc)
        fun hc => by simp [StepEdit.apply, SliceEdit.apply, hc])
      fun _ _ _ hl => leavesOk_setAt hr hid hl).touch i now
  | removeResult stepID resultID =>
    obtain ⟨i, st, k, r, hget, hstid, hr, hid, rfl⟩ := removeResult_ok h hop
    -- the edges go first, so that none leaves by the result when it goes
    have hedges := hj.sublist (List.filter_sublist
      (p := fun e => !(e.fromStep = stepID && e.fromResultId = resultID)))
    have hcontents := hj.contents st (List.mem_of_getElem? hget)
    refine (hedges.onStep hget (f := fun st => (StepEdit.results (.removeAt k)).apply st) rfl rfl
      (contentsOk_of_empty hcontents rfl (fun hc => hc) (fun hc => hc)
        fun hc => by simp [StepEdit.apply, SliceEdit.apply, hc])
      fun e he hfrom hl => leavesOk_removeAt hr ?_ hl).touch i now
    have hkeep := (List.mem_filter.mp he).2
    rw [hfrom, hstid] at hkeep
    rw [hid]
    intro heq
    rw [heq] at hkeep
    simp at hkeep
  | addPlaceholder stepID d =>
    obtain ⟨i, st, ph, hget, hkind, -, rfl⟩ := addPlaceholder_ok h hop
    have hcontents := (contentsOk_step hkind).mp (hj.contents st (List.mem_of_getElem? hget))
    exact ((hj.onStep hget (f := fun st => (StepEdit.placeholders (.append ph)).apply st) rfl rfl
      ((contentsOk_step (x := (StepEdit.placeholders (.append ph)).apply st) hkind).mpr hcontents)
      fun _ _ _ hl => hl).child).touch i now
  | updatePlaceholder stepID placeholderID p =>
    obtain ⟨i, st, k, old, ph, hget, -, -, rfl⟩ := updatePlaceholder_ok h hop
    have hcontents := hj.contents st (List.mem_of_getElem? hget)
    exact (hj.onStep hget (f := fun st => (StepEdit.placeholders (.setAt k ph)).apply st) rfl rfl
      (contentsOk_of_empty hcontents rfl (fun hc => hc)
        (fun hc => by simp [StepEdit.apply, SliceEdit.apply, hc]) fun hc => hc)
      fun _ _ _ hl => hl).touch i now
  | removePlaceholder stepID placeholderID =>
    obtain ⟨i, st, k, hget, rfl⟩ := removePlaceholder_ok h hop
    have hcontents := hj.contents st (List.mem_of_getElem? hget)
    exact (hj.onStep hget (f := fun st => (StepEdit.placeholders (.removeAt k)).apply st) rfl rfl
      (contentsOk_of_empty hcontents rfl (fun hc => hc)
        (fun hc => by simp [StepEdit.apply, SliceEdit.apply, hc]) fun hc => hc)
      fun _ _ _ hl => hl).touch i now
  | createBatch d createdBy =>
    obtain ⟨b, -, -, rfl⟩ := createBatch_ok h hop
    exact hj.of_same rfl rfl rfl
  | updateBatch batchID p =>
    obtain ⟨i, f, rfl, -⟩ := updateBatch_ok h hop
    exact hj.of_same rfl rfl rfl
  | deleteBatch batchID =>
    obtain ⟨i, b, -, -, rfl⟩ := deleteBatch_ok h hop
    exact hj.of_same rfl rfl rfl
  | addFulfillment batchID d suppliedBy =>
    obtain ⟨i, b, f, -, -, -, -, rfl⟩ := addFulfillment_ok h hop
    exact hj.of_same rfl rfl rfl
  | removeFulfillment batchID fulfillmentID =>
    obtain ⟨i, k, rfl⟩ := removeFulfillment_ok h hop
    exact hj.of_same rfl rfl rfl
  | addBatchRef batchID token =>
    obtain rfl | ⟨i, t, rfl⟩ := addBatchRef_ok h hop
    all_goals exact hj.of_same rfl rfl rfl
  | removeBatchRef batchID token =>
    obtain ⟨i, k, rfl⟩ := removeBatchRef_ok h hop
    exact hj.of_same rfl rfl rfl
  | hideBatchStep batchID stepID =>
    obtain rfl | ⟨i, b, -, -, -, rfl⟩ | ⟨i, k, rfl⟩ := setBatchStepHidden_ok h hop
    all_goals exact hj.of_same rfl rfl rfl
  | showBatchStep batchID stepID =>
    obtain rfl | ⟨i, b, -, -, -, rfl⟩ | ⟨i, k, rfl⟩ := setBatchStepHidden_ok h hop
    all_goals exact hj.of_same rfl rfl rfl

theorem planOk_rule : JobRule PlanOk where
  new h hstep _ _ :=
    { ends := fun _ he => (nomatch he)
      acyclic := Lib.Graph.acyclic_nil
      leaves := fun _ he => (nomatch he)
      distinct := List.nodup_nil
      contents := fun _ hst => (nomatch hst)
      counter := Int.le_of_eq hstep.symm
      ids := fun _ hst => (nomatch hst)
      nums := List.nodup_nil }
  copy f j hf hj := hj.of_same (hf _).1 rfl rfl
  call h hop hj := planOk_call h hop hj
  touch now j hj := hj.of_same rfl rfl rfl
  repair j hj := by
    refine hj.of_same ?_ rfl rfl
    have := hj.counter
    show (if j.nextStepNum < 1 then 1 else j.nextStepNum) = j.nextStepNum
    rw [if_neg (by omega)]

/-- In every state the store can be in, the plan of every job, in memory and on disk, is a
well-formed graph. -/
theorem plan_graph_ok {projectID : String} {es : List Event} {s : State}
    (hrun : Lib.Run (State.Happens projectID) Lib.always State.init es s) {pf : FileVal}
    (hpf : s.view.file = some pf ∨ s.disk = some pf) : ∀ j ∈ pf.jobs, GraphOk j :=
  fun j hj => (planOk_rule.holds hrun pf hpf j hj).toGraphOk

/-- A decision with a step behind one of its results, and an edge back that is refused. -/
def decisionCalls : List Op :=
  [.createJob "hub" "Plant" { name := "Job", description := "" } default,
    .onJob "j1" (.createStep { kind := "decision", title := "Choose" }),
    .onJob "j1" (.createStep { title := "Build" }),
    .onJob "j1" (.addResult "s1" { label := "Yes" }),
    .onJob "j1" (.addEdge "s1" "dr1" "s2"),
    .onJob "j1" (.addEdge "s2" "" "s1")]

theorem plan_graph_ok_decision :
    ((after "p" (calls decisionCalls) State.init).view.file.map fun pf =>
      pf.jobs.map fun j => links j.edges) = some [[("s1", "s2")]] ∧
    ∀ pf, (after "p" (calls decisionCalls) State.init).view.file = some pf →
      ∀ j ∈ pf.jobs, GraphOk j :=
  ⟨by decide +kernel, fun _ hpf =>
    plan_graph_ok (run_after "p" (calls decisionCalls) State.init) (.inl hpf)⟩

end Production
