import FusionLocalServer.Lib.Search
import FusionLocalServer.Production.Invariant

/-!
# A batch keeps the plan it was made from

`CreateBatch` freezes the plan, and no later operation on the project but one that deletes
the batch, its job or the project changes the frozen steps: in memory and on disk, the
batch found under the job's and the batch's id has the steps it was made with
(`batch_frozen`). At the level of values this is a matter of which writes reach a batch's
steps, and of where a search for an id ends up; that the store's memory, with all its
copies and in-place edits, behaves like values is `State.exec_refines`.

What is supplied to a batch refers to its frozen steps: `BatchOk` holds of every batch at
all times.
-/

namespace Production

open Lib (Time bind_ok guard_ok refuse_ok findIdx_ok find_ok find?_eraseIdx find?_set_other
  find?_set_first find?_of_findIdx? find?_modify find?_append_of_some)
open Lib.Memory
open FusionLocalServer.Storage

/-! ## What is supplied to a batch -/

/-- A supplied document names a frozen step, and a placeholder of it unless it is an as-run
artifact; no placeholder is filled twice; the hidden steps are frozen ones, each once. -/
structure BatchOk (b : BatchVal) : Prop where
  supplied : ∀ f ∈ b.fulfillments, ∃ bs ∈ b.steps, bs.stepId = f.stepId ∧
    (f.placeholderId ≠ "" → ∃ ph ∈ bs.placeholders, ph.id = f.placeholderId)
  once : ((b.fulfillments.filter fun f => f.placeholderId ≠ "").map fun f =>
    (f.stepId, f.placeholderId)).Nodup
  hidden : ∀ id ∈ b.hiddenSteps, ∃ bs ∈ b.steps, bs.stepId = id
  hiddenOnce : b.hiddenSteps.Nodup

/-- Every batch is, and its id is that of its number, below the counter. -/
structure BatchesOk (j : JobVal) : Prop where
  each : ∀ b ∈ j.batches, BatchOk b
  counter : 1 ≤ j.nextBatchNum
  ids : ∀ b ∈ j.batches, b.id = childId "b" b.num ∧ b.num < j.nextBatchNum

section Writes

variable {j j' : JobVal} {b : BatchVal}

theorem BatchesOk.of_same (h : BatchesOk j) (hcounter : j'.nextBatchNum = j.nextBatchNum)
    (hbatches : j'.batches = j.batches) : BatchesOk j' := by
  obtain ⟨heach, hcount, hids⟩ := h
  refine ⟨?_, ?_, ?_⟩
  all_goals simp only [hcounter, hbatches]
  all_goals assumption

theorem BatchesOk.onBatch (h : BatchesOk j) {f : BatchVal → BatchVal} (i : Nat)
    (hf : ∀ b, j.batches[i]? = some b → BatchOk b →
      BatchOk (f b) ∧ (f b).id = b.id ∧ (f b).num = b.num) :
    BatchesOk { j with batches := j.batches.modify i f } := by
  have hmem : ∀ b ∈ j.batches.modify i f, b ∈ j.batches ∨
      ∃ b', j.batches[i]? = some b' ∧ b = f b' := by
    intro b hb
    obtain ⟨k, hk⟩ := List.getElem?_of_mem hb
    rw [List.getElem?_modify] at hk
    obtain ⟨b', hb', heq⟩ := Option.map_eq_some_iff.mp hk
    split at heq
    · next hik =>
      subst hik
      exact .inr ⟨b', hb', heq.symm⟩
    · exact .inl (heq ▸ List.mem_of_getElem? hb')
  refine ⟨fun b hb => ?_, h.counter, fun b hb => ?_⟩
  · rcases hmem b hb with hb | ⟨b', hget, rfl⟩
    · exact h.each b hb
    · exact (hf b' hget (h.each b' (List.mem_of_getElem? hget))).1
  · rcases hmem b hb with hb | ⟨b', hget, rfl⟩
    · exact h.ids b hb
    · have hmem := List.mem_of_getElem? hget
      obtain ⟨-, hid, hnum⟩ := hf b' hget (h.each b' hmem)
      rw [hid, hnum]
      exact h.ids b' hmem

/-- A batch's time is set. -/
theorem BatchesOk.touch (h : BatchesOk j) (i : Nat) (now : Time) :
    BatchesOk ((touchBatch i now).apply j) :=
  h.onBatch i fun _ _ hb =>
    ⟨⟨hb.supplied, hb.once, hb.hidden, hb.hiddenOnce⟩, rfl, rfl⟩

theorem BatchesOk.child (h : BatchesOk j) : BatchesOk (nextChild.apply j) := h.of_same rfl rfl

theorem BatchOk.refs (h : BatchOk b) (e : SliceEdit String) :
    BatchOk ((BatchEdit.refs e).apply b) :=
  ⟨h.supplied, h.once, h.hidden, h.hiddenOnce⟩

theorem BatchOk.append (h : BatchOk b) {f : Fulfillment}
    (hnamed : ∃ bs ∈ b.steps, bs.stepId = f.stepId ∧
      (f.placeholderId ≠ "" → ∃ ph ∈ bs.placeholders, ph.id = f.placeholderId))
    (hfree : f.placeholderId ≠ "" → ∀ f' ∈ b.fulfillments,
      ¬ (f'.stepId = f.stepId ∧ f'.placeholderId = f.placeholderId)) :
    BatchOk ((BatchEdit.fulfillments (.append f)).apply b) where
  supplied f' hf' := by
    rcases List.mem_append.mp hf' with hf' | hf'
    · exact h.supplied f' hf'
    · rw [List.mem_singleton.mp hf']
      exact hnamed
  once := by
    show (((b.fulfillments ++ [f]).filter _).map _).Nodup
    rw [List.filter_append, List.map_append]
    by_cases hf : f.placeholderId = ""
    · rw [List.filter_cons_of_neg (by simp [hf]), List.filter_nil, List.map_nil, List.append_nil]
      exact h.once
    · rw [List.filter_cons_of_pos (by simp [hf]), List.filter_nil]
      refine List.nodup_append.mpr ⟨h.once, List.nodup_singleton _, fun x hx y hy heq => ?_⟩
      obtain ⟨f', hf', rfl⟩ := List.mem_map.mp hx
      rw [List.map_singleton, List.mem_singleton] at hy
      rw [hy, Prod.mk.injEq] at heq
      exact hfree hf f' (List.mem_of_mem_filter hf') heq
  hidden := h.hidden
  hiddenOnce := h.hiddenOnce

theorem BatchOk.removeAt (h : BatchOk b) (k : Nat) :
    BatchOk ((BatchEdit.fulfillments (.removeAt k)).apply b) where
  supplied f hf := h.supplied f (List.mem_of_mem_eraseIdx hf)
  once := (((List.eraseIdx_sublist ..).filter _).map _).nodup h.once
  hidden := h.hidden
  hiddenOnce := h.hiddenOnce

theorem BatchOk.hide (h : BatchOk b) {stepID : String} (hstep : ∃ bs ∈ b.steps, bs.stepId = stepID)
    (hnew : stepID ∉ b.hiddenSteps) :
    BatchOk ((BatchEdit.hiddenSteps (.append stepID)).apply b) where
  supplied := h.supplied
  once := h.once
  hidden id hid := by
    rcases List.mem_append.mp hid with hid | hid
    · exact h.hidden id hid
    · rw [List.mem_singleton.mp hid]
      exact hstep
  hiddenOnce := by
    refine List.nodup_append.mpr ⟨h.hiddenOnce, List.nodup_singleton _, fun x hx y hy heq => ?_⟩
    rw [List.mem_singleton.mp hy] at heq
    exact hnew (heq ▸ hx)

theorem BatchOk.show (h : BatchOk b) (k : Nat) :
    BatchOk ((BatchEdit.hiddenSteps (.removeAt k)).apply b) where
  supplied := h.supplied
  once := h.once
  hidden id hid := h.hidden id (List.mem_of_mem_eraseIdx hid)
  hiddenOnce := (List.eraseIdx_sublist ..).nodup h.hiddenOnce

end Writes

/-- A call on a job keeps what is supplied to its batches in order. -/
theorem batchesOk_call {now : Time} {c : JobCall} {op : JobOp} {j : JobVal}
    {edits : List JobEdit} (h : c.closure now = .ok op) (hop : op j = .ok edits)
    (hj : BatchesOk j) : BatchesOk (applyAll edits j) := by
  cases c with
  | updateJob p =>
    obtain ⟨f, rfl, hf⟩ := updateJob_ok h hop
    exact hj.of_same (hf _).2.2.1 rfl
  | createStep d =>
    obtain ⟨st, -, -, rfl⟩ := createStep_ok h hop
    exact hj.of_same rfl rfl
  | updateStep stepID p =>
    obtain ⟨i, st, f, -, rfl, -⟩ := updateStep_ok h hop
    exact hj.of_same rfl rfl
  | deleteStep stepID =>
    obtain ⟨i, st, -, -, rfl⟩ := deleteStep_ok h hop
    exact hj.of_same rfl rfl
  | addEdge fromStep fromResultID toStep =>
    obtain ⟨i, src, dst, -, e, -, -, -, -, -, -, -, rfl⟩ := addEdge_ok h hop
    exact hj.of_same rfl rfl
  | deleteEdge edgeID =>
    obtain ⟨k, rfl⟩ := deleteEdge_ok h hop
    exact hj.of_same rfl rfl
  | attachPlanDoc stepID doc addedBy =>
    obtain ⟨i, st, pd, -, -, -, rfl⟩ := attachPlanDoc_ok h hop
    exact hj.of_same rfl rfl
  | removePlanDoc stepID planDocID =>
    obtain ⟨i, st, k, -, rfl⟩ := removePlanDoc_ok h hop
    exact hj.of_same rfl rfl
  | addResult stepID d =>
    obtain ⟨i, st, r, -, -, -, rfl⟩ := addResult_ok h hop
    exact hj.of_same rfl rfl
  | updateResult stepID resultID p =>
    obtain ⟨i, st, k, r, r', -, -, -, rfl⟩ := updateResult_ok h hop
    exact hj.of_same rfl rfl
  | removeResult stepID resultID =>
    obtain ⟨i, st, k, r, -, -, -, -, rfl⟩ := removeResult_ok h hop
    exact hj.of_same rfl rfl
  | addPlaceholder stepID d =>
    obtain ⟨i, st, ph, -, -, -, rfl⟩ := addPlaceholder_ok h hop
    exact hj.of_same rfl rfl
  | updatePlaceholder stepID placeholderID p =>
    obtain ⟨i, st, k, old, ph, -, -, -, rfl⟩ := updatePlaceholder_ok h hop
    exact hj.of_same rfl rfl
  | removePlaceholder stepID placeholderID =>
    obtain ⟨i, st, k, -, rfl⟩ := removePlaceholder_ok h hop
    exact hj.of_same rfl rfl
  | createBatch d createdBy =>
    obtain ⟨b, hid, hnum, rfl⟩ := createBatch_ok h hop
    refine ⟨fun b' hb' => ?_, ?_, fun b' hb' => ?_⟩
    · rcases List.mem_append.mp hb' with hb' | hb'
      · exact hj.each b' hb'
      · rw [List.mem_singleton.mp hb']
        exact ⟨fun _ hf => (nomatch hf), List.nodup_nil, fun _ hid => (nomatch hid),
          List.nodup_nil⟩
    · have := hj.counter
      show 1 ≤ j.nextBatchNum + 1
      omega
    · show b'.id = childId "b" b'.num ∧ b'.num < j.nextBatchNum + 1
      rcases List.mem_append.mp hb' with hb' | hb'
      · exact ⟨(hj.ids b' hb').1, by have := (hj.ids b' hb').2; omega⟩
      · rw [List.mem_singleton.mp hb']
        exact ⟨hnum ▸ hid, by show b.num < _; omega⟩
  | updateBatch batchID p =>
    obtain ⟨i, f, rfl, hf⟩ := updateBatch_ok h hop
    exact hj.onBatch i fun b _ hb =>
      ⟨⟨hb.supplied, hb.once, hb.hidden, hb.hiddenOnce⟩, hf b.toBatchHeader⟩
  | deleteBatch batchID =>
    obtain ⟨i, b, -, -, rfl⟩ := deleteBatch_ok h hop
    exact ⟨fun b hb => hj.each b (List.mem_of_mem_eraseIdx hb), hj.counter,
      fun b hb => hj.ids b (List.mem_of_mem_eraseIdx hb)⟩
  | addFulfillment batchID d suppliedBy =>
    obtain ⟨i, b, f, hget, hnamed, hfree, -, rfl⟩ := addFulfillment_ok h hop
    have hadd : BatchesOk (JobEdit.apply j (.onBatch i (.fulfillments (.append f)))) := by
      refine hj.onBatch i fun b' hget' hb => ?_
      rw [hget] at hget'
      cases hget'
      exact ⟨hb.append hnamed hfree, rfl, rfl⟩
    exact hadd.child.touch i now
  | removeFulfillment batchID fulfillmentID =>
    obtain ⟨i, k, rfl⟩ := removeFulfillment_ok h hop
    exact (hj.onBatch i fun b _ hb => ⟨hb.removeAt k, rfl, rfl⟩).touch i now
  | addBatchRef batchID token =>
    obtain rfl | ⟨i, t, rfl⟩ := addBatchRef_ok h hop
    · exact hj
    · exact (hj.onBatch i fun b _ hb => ⟨hb.refs (.append t), rfl, rfl⟩).touch i now
  | removeBatchRef batchID token =>
    obtain ⟨i, k, rfl⟩ := removeBatchRef_ok h hop
    exact (hj.onBatch i fun b _ hb => ⟨hb.refs (.removeAt k), rfl, rfl⟩).touch i now
  | hideBatchStep batchID stepID =>
    obtain rfl | ⟨i, b, hget, hstep, hnew, rfl⟩ | ⟨i, k, rfl⟩ := setBatchStepHidden_ok h hop
    · exact hj
    · refine (hj.onBatch i fun b' hget' hb => ?_).touch i now
      rw [hget] at hget'
      cases hget'
      exact ⟨hb.hide hstep hnew, rfl, rfl⟩
    · exact (hj.onBatch i fun b _ hb => ⟨hb.show k, rfl, rfl⟩).touch i now
  | showBatchStep batchID stepID =>
    obtain rfl | ⟨i, b, hget, hstep, hnew, rfl⟩ | ⟨i, k, rfl⟩ := setBatchStepHidden_ok h hop
    · exact hj
    · refine (hj.onBatch i fun b' hget' hb => ?_).touch i now
      rw [hget] at hget'
      cases hget'
      exact ⟨hb.hide hstep hnew, rfl, rfl⟩
    · exact (hj.onBatch i fun b _ hb => ⟨hb.show k, rfl, rfl⟩).touch i now

theorem batchesOk_rule : JobRule BatchesOk where
  new h _ hbatch _ := ⟨fun _ hb => (nomatch hb), Int.le_of_eq hbatch.symm,
    fun _ hb => (nomatch hb)⟩
  copy f j hf hj := ⟨fun _ hb => (nomatch hb), Int.le_of_eq (hf _).2.1.symm,
    fun _ hb => (nomatch hb)⟩
  call h hop hj := batchesOk_call h hop hj
  touch now j hj := hj.of_same rfl rfl
  repair j hj := by
    refine hj.of_same ?_ rfl
    have := hj.counter
    show (if j.nextBatchNum < 1 then 1 else j.nextBatchNum) = j.nextBatchNum
    rw [if_neg (by omega)]

/-! ## Where a search for a batch ends up -/

/-- The batch a reader finds under the job's and the batch's id. -/
def findBatch (jobs : List JobVal) (jobID batchID : String) : Option BatchVal :=
  (jobs.find? fun j => j.id = jobID).bind fun j => j.batches.find? fun b => b.id = batchID

/-- The frozen steps of a job's batch. -/
def frozenSteps (j : JobVal) (batchID : String) : Option (List BatchStepVal) :=
  (j.batches.find? fun b => b.id = batchID).map fun b => b.steps

/-- The write leaves every id as it is, and drops no batch. -/
def JobEdit.Keeps : JobEdit → Prop
  | .fields f => ∀ h, (f h).id = h.id
  | .removeBatch _ => False
  | .onBatch _ (.fields f) => ∀ h, (f h).id = h.id
  | _ => True

theorem JobEdit.Keeps.id {e : JobEdit} (h : e.Keeps) (j : JobVal) : (e.apply j).id = j.id := by
  cases e with
  | fields f => exact h _
  | _ => rfl

theorem JobEdit.Keeps.frozen {e : JobEdit} (h : e.Keeps) (j : JobVal) {batchID : String}
    {steps : List BatchStepVal} (hfound : frozenSteps j batchID = some steps) :
    frozenSteps (e.apply j) batchID = some steps := by
  cases e with
  | fields f => exact hfound
  | edges e => exact hfound
  | addStep st => exact hfound
  | removeStep i => exact hfound
  | onStep i e => exact hfound
  | addBatch b =>
    obtain ⟨b', hb', rfl⟩ := Option.map_eq_some_iff.mp hfound
    show ((j.batches ++ [newBatch b j.steps]).find? _).map _ = _
    rw [find?_append_of_some hb']
    rfl
  | removeBatch i => exact absurd h fun hf => hf
  | onBatch i e =>
    refine Eq.trans ?_ hfound
    refine find?_modify (f := fun b => e.apply b) (g := fun b => b.steps) (fun b => ?_) fun b => ?_
    · cases e with
      | fields f =>
        show decide ((f b.toBatchHeader).id = batchID) = decide (b.id = batchID)
        rw [show (f b.toBatchHeader).id = b.id from h _]
      | fulfillments e => rfl
      | refs e => rfl
      | hiddenSteps e => rfl
    · cases e <;> rfl

theorem keeps_applyAll {edits : List JobEdit} :
    ∀ {j : JobVal}, (∀ e ∈ edits, e.Keeps) → (applyAll edits j).id = j.id ∧
      ∀ {batchID steps}, frozenSteps j batchID = some steps →
        frozenSteps (applyAll edits j) batchID = some steps := by
  induction edits with
  | nil => exact fun _ => ⟨rfl, fun hfound => hfound⟩
  | cons e edits ih =>
    intro j hkeeps
    have hone := hkeeps e List.mem_cons_self
    obtain ⟨hid, hfrozen⟩ := ih (j := e.apply j) fun e he => hkeeps e (List.mem_cons_of_mem _ he)
    exact ⟨hid.trans (hone.id j), fun hfound => hfrozen (hone.frozen j hfound)⟩

/-- A call other than one that deletes a batch keeps all ids and drops no batch. -/
theorem keeps_call {now : Time} {c : JobCall} {op : JobOp} {j : JobVal} {edits : List JobEdit}
    (h : c.closure now = .ok op) (hop : op j = .ok edits) :
    (∀ e ∈ edits, e.Keeps) ∨ ∃ i b, c = .deleteBatch b.id ∧ j.batches[i]? = some b ∧
      edits = [.removeBatch i] := by
  cases c with
  | updateJob p =>
    obtain ⟨f, rfl, hf⟩ := updateJob_ok h hop
    exact .inl (by simpa [JobEdit.Keeps] using fun h => (hf h).1)
  | createStep d =>
    obtain ⟨st, -, -, rfl⟩ := createStep_ok h hop
    exact .inl (by simp [JobEdit.Keeps, nextStep])
  | updateStep stepID p =>
    obtain ⟨i, st, f, -, rfl, -⟩ := updateStep_ok h hop
    exact .inl (by simp [JobEdit.Keeps])
  | deleteStep stepID =>
    obtain ⟨i, st, -, -, rfl⟩ := deleteStep_ok h hop
    exact .inl (by simp [JobEdit.Keeps])
  | addEdge fromStep fromResultID toStep =>
    obtain ⟨i, src, dst, -, e, -, -, -, -, -, -, -, rfl⟩ := addEdge_ok h hop
    exact .inl (by simp [JobEdit.Keeps, nextChild])
  | deleteEdge edgeID =>
    obtain ⟨k, rfl⟩ := deleteEdge_ok h hop
    exact .inl (by simp [JobEdit.Keeps])
  | attachPlanDoc stepID doc addedBy =>
    obtain ⟨i, st, pd, -, -, -, rfl⟩ := attachPlanDoc_ok h hop
    exact .inl (by simp [JobEdit.Keeps, nextChild, touchStep])
  | removePlanDoc stepID planDocID =>
    obtain ⟨i, st, k, -, rfl⟩ := removePlanDoc_ok h hop
    exact .inl (by simp [JobEdit.Keeps, touchStep])
  | addResult stepID d =>
    obtain ⟨i, st, r, -, -, -, rfl⟩ := addResult_ok h hop
    exact .inl (by simp [JobEdit.Keeps, nextChild, touchStep])
  | updateResult stepID resultID p =>
    obtain ⟨i, st, k, r, r', -, -, -, rfl⟩ := updateResult_ok h hop
    exact .inl (by simp [JobEdit.Keeps, touchStep])
  | removeResult stepID resultID =>
    obtain ⟨i, st, k, r, -, -, -, -, rfl⟩ := removeResult_ok h hop
    exact .inl (by simp [JobEdit.Keeps, touchStep])
  | addPlaceholder stepID d =>
    obtain ⟨i, st, ph, -, -, -, rfl⟩ := addPlaceholder_ok h hop
    exact .inl (by simp [JobEdit.Keeps, nextChild, touchStep])
  | updatePlaceholder stepID placeholderID p =>
    obtain ⟨i, st, k, old, ph, -, -, -, rfl⟩ := updatePlaceholder_ok h hop
    exact .inl (by simp [JobEdit.Keeps, touchStep])
  | removePlaceholder stepID placeholderID =>
    obtain ⟨i, st, k, -, rfl⟩ := removePlaceholder_ok h hop
    exact .inl (by simp [JobEdit.Keeps, touchStep])
  | createBatch d createdBy =>
    obtain ⟨b, -, -, rfl⟩ := createBatch_ok h hop
    exact .inl (by simp [JobEdit.Keeps, nextBatch])
  | updateBatch batchID p =>
    obtain ⟨i, f, rfl, hf⟩ := updateBatch_ok h hop
    exact .inl (by simpa [JobEdit.Keeps] using fun h => (hf h).1)
  | deleteBatch batchID =>
    obtain ⟨i, b, hget, rfl, rfl⟩ := deleteBatch_ok h hop
    exact .inr ⟨i, b, rfl, hget, rfl⟩
  | addFulfillment batchID d suppliedBy =>
    obtain ⟨i, b, f, -, -, -, -, rfl⟩ := addFulfillment_ok h hop
    exact .inl (by simp [JobEdit.Keeps, nextChild, touchBatch])
  | removeFulfillment batchID fulfillmentID =>
    obtain ⟨i, k, rfl⟩ := removeFulfillment_ok h hop
    exact .inl (by simp [JobEdit.Keeps, touchBatch])
  | addBatchRef batchID token =>
    obtain rfl | ⟨i, t, rfl⟩ := addBatchRef_ok h hop
    all_goals exact .inl (by simp [JobEdit.Keeps, touchBatch])
  | removeBatchRef batchID token =>
    obtain ⟨i, k, rfl⟩ := removeBatchRef_ok h hop
    exact .inl (by simp [JobEdit.Keeps, touchBatch])
  | hideBatchStep batchID stepID =>
    obtain rfl | ⟨i, b, -, -, -, rfl⟩ | ⟨i, k, rfl⟩ := setBatchStepHidden_ok h hop
    all_goals exact .inl (by simp [JobEdit.Keeps, touchBatch])
  | showBatchStep batchID stepID =>
    obtain rfl | ⟨i, b, -, -, -, rfl⟩ | ⟨i, k, rfl⟩ := setBatchStepHidden_ok h hop
    all_goals exact .inl (by simp [JobEdit.Keeps, touchBatch])

theorem call_id {now : Time} {c : JobCall} {op : JobOp} {j : JobVal} {edits : List JobEdit}
    (h : c.closure now = .ok op) (hop : op j = .ok edits) :
    (applyAll (edits ++ [touchJob now]) j).id = j.id := by
  unfold applyAll
  rw [List.foldl_append]
  rcases keeps_call h hop with hkeeps | ⟨i, b, -, -, rfl⟩
  · exact (keeps_applyAll hkeeps).1
  · rfl

theorem call_frozen {now : Time} {c : JobCall} {op : JobOp} {j : JobVal} {edits : List JobEdit}
    {batchID : String} {steps : List BatchStepVal} (h : c.closure now = .ok op)
    (hop : op j = .ok edits) (hc : c ≠ .deleteBatch batchID)
    (hfound : frozenSteps j batchID = some steps) :
    frozenSteps (applyAll (edits ++ [touchJob now]) j) batchID = some steps := by
  unfold applyAll
  rw [List.foldl_append]
  rcases keeps_call h hop with hkeeps | ⟨i, b, rfl, hget, rfl⟩
  · exact (keeps_applyAll hkeeps).2 hfound
  · have hother : decide (b.id = batchID) = false :=
      decide_eq_false fun heq => hc (heq ▸ rfl)
    refine Eq.trans ?_ hfound
    exact congrArg (Option.map _) (find?_eraseIdx hget hother)

/-! ## The frozen steps through the operations -/

/-- Among the jobs, the batch found under the ids has these frozen steps. -/
def Frozen (jobID batchID : String) (steps : List BatchStepVal) (jobs : List JobVal) : Prop :=
  (findBatch jobs jobID batchID).map (fun b => b.steps) = some steps

/-- The operation deletes the batch, its job or the project. -/
def Deletes (jobID batchID : String) : Op → Prop
  | .deleteJob id => id = jobID
  | .onJob id (.deleteBatch b) => id = jobID ∧ b = batchID
  | .deleteProject _ => True
  | _ => False

section Frozen

variable {jobID batchID : String} {steps : List BatchStepVal} {jobs jobs' : List JobVal}

theorem frozen_iff : Frozen jobID batchID steps jobs ↔
    ∃ j, (jobs.find? fun j => j.id = jobID) = some j ∧ frozenSteps j batchID = some steps := by
  unfold Frozen findBatch frozenSteps
  cases jobs.find? fun j => j.id = jobID with
  | none => simp
  | some j => simp

theorem Changed.frozen {now : Time} {op : Op} (hchange : Changed now op jobs jobs')
    (hop : ¬ Deletes jobID batchID op) (hfrozen : Frozen jobID batchID steps jobs) :
    Frozen jobID batchID steps jobs' := by
  obtain ⟨j, hfind, hsteps⟩ := frozen_iff.mp hfrozen
  refine frozen_iff.mpr ?_
  cases hchange with
  | created _ _ _ => exact ⟨j, find?_append_of_some hfind, hsteps⟩
  | copied _ _ _ => exact ⟨j, find?_append_of_some hfind, hsteps⟩
  | removed hfirst hget =>
    have hid := of_findIdx hfirst hget
    refine ⟨j, ?_, hsteps⟩
    rw [find?_eraseIdx hget (decide_eq_false fun heq => hop (hid.symm.trans heq))]
    exact hfind
  | @edited jobID' _ i j' c jop edits hfirst hget hc hjop =>
    have hid' := of_findIdx hfirst hget
    have hnewid := call_id hc hjop
    by_cases hjob : jobID' = jobID
    · subst hjob
      rw [find?_of_findIdx? hfirst hget] at hfind
      cases hfind
      refine ⟨_, find?_set_first hfirst (decide_eq_true (hnewid.trans hid')), ?_⟩
      exact call_frozen hc hjop (fun heq => hop (heq ▸ ⟨rfl, rfl⟩)) hsteps
    · refine ⟨j, ?_, hsteps⟩
      rw [find?_set_other hget (decide_eq_false fun heq => hjob (hid'.symm.trans heq))
        (decide_eq_false fun heq => hjob (hid'.symm.trans (hnewid.symm.trans heq)))]
      exact hfind

/-- On disk, and in memory if it is loaded, the batch has these frozen steps. -/
structure Project.Frozen (jobID batchID : String) (steps : List BatchStepVal) (p : Project) :
    Prop where
  disk : ∃ pf, p.disk = some pf ∧ Production.Frozen jobID batchID steps pf.jobs
  file : ∀ pf, p.file = some pf → Production.Frozen jobID batchID steps pf.jobs

theorem Project.Frozen.loaded {p : Project} (hp : p.Frozen jobID batchID steps) {env : Env}
    {projectID : String} {pf : FileVal} (hload : p.loaded env projectID = .ok pf) :
    Production.Frozen jobID batchID steps pf.jobs := by
  unfold Project.loaded at hload
  split at hload
  · next pf' hfile =>
    cases hload
    exact hp.file pf hfile
  · obtain ⟨pf', hdisk, hfrozen⟩ := hp.disk
    rw [hdisk] at hload
    unfold loadFile at hload
    split at hload
    · cases hload
    · obtain ⟨-, hload⟩ := refuse_ok hload
      cases hload
      obtain ⟨j, hfind, hsteps⟩ := frozen_iff.mp hfrozen
      refine frozen_iff.mpr ⟨{ j with toJobHeader := repairJob j.toJobHeader }, ?_, hsteps⟩
      rw [List.find?_map]
      exact congrArg (Option.map _) hfind

theorem Project.Frozen.exec {p : Project} (hp : p.Frozen jobID batchID steps) {op : Op}
    (hop : ¬ Deletes jobID batchID op) (env : Env) (projectID : String) :
    (p.exec env projectID op).1.Frozen jobID batchID steps := by
  generalize hout : (p.exec env projectID op).1 = p'
  have hcases := p.exec_cases env projectID op
  rw [hout] at hcases
  cases hcases with
  | same => exact hp
  | kept hload hjobs hnext =>
    refine ⟨hp.disk, fun pf hpf => ?_⟩
    cases hpf
    rw [hjobs]
    exact hp.loaded hload
  | saved hload hchange =>
    have hnew := hchange.frozen hop (hp.loaded hload)
    refine ⟨⟨_, rfl, hnew⟩, fun pf hpf => ?_⟩
    cases hpf
    exact hnew
  | dropped _ => exact ⟨hp.disk, fun pf hpf => (nomatch hpf)⟩
  | deleted heq =>
    subst heq
    exact absurd trivial hop

end Frozen

/-! ## From its creation on -/

/-- A call on a job that succeeds: what was read, edited and saved. -/
theorem Project.mutateJob_ok {p : Project} {env : Env} {projectID jobID : String} {op : JobOp}
    {r : Option JobVal} (h : (p.mutateJob env projectID jobID op).2 = .ok r) :
    ∃ pf i j edits pf', p.loaded env projectID = .ok pf ∧
      pf.jobs.findIdx? (fun j => j.id = jobID) = some i ∧ pf.jobs[i]? = some j ∧
      op j = .ok edits ∧ r = some (applyAll (edits ++ [touchJob env.now]) j) ∧
      pf'.jobs = pf.jobs.set i (applyAll (edits ++ [touchJob env.now]) j) ∧
      (p.mutateJob env projectID jobID op).1 = ⟨some pf', some pf'⟩ := by
  unfold mutateJob at h ⊢
  split at h
  · cases h
  · next pf hload =>
    split at h
    · cases h
    · next i hi =>
      split at h
      · cases h
      · next j hget =>
        split at h
        · cases h
        · next edits hop =>
          unfold save at h ⊢
          split at h
          · cases h
          · next hsaved =>
            cases h
            refine ⟨pf, i, j, edits, { touchFile env pf.toFileHeader with jobs := _ }, hload, hi,
              hget, hop, rfl, rfl, ?_⟩
            rw [if_neg hsaved]

/-- The batch `CreateBatch` makes, with the plan as it then stands frozen into it. -/
theorem createBatch_frozen {p : Project} {env : Env} {projectID jobID : String} {d : BatchDraft}
    {createdBy : UserRef} {j' : JobVal} (hp : Holds BatchesOk p)
    (hok : (p.exec env projectID (.onJob jobID (.createBatch d createdBy))).2 = .ok (some j')) :
    ∃ pf j b, p.loaded env projectID = .ok pf ∧
      (pf.jobs.find? fun j => j.id = jobID) = some j ∧ j'.batches = j.batches ++ [b] ∧
      (p.exec env projectID (.onJob jobID (.createBatch d createdBy))).1.Frozen jobID b.id
        (j.steps.map freeze) := by
  unfold Project.exec at hok ⊢
  dsimp only at hok ⊢
  cases hc : JobCall.closure env.now (.createBatch d createdBy) with
  | error e =>
    rw [hc] at hok
    cases hok
  | ok op =>
    rw [hc] at hok
    dsimp only at hok ⊢
    obtain ⟨pf, i, j, edits, pf', hload, hfirst, hget, hop, hr, hjobs, hout⟩ :=
      Project.mutateJob_ok hok
    cases hr
    have hnewid := call_id hc hop
    obtain ⟨b, hid, hnum, rfl⟩ := createBatch_ok hc hop
    have hfind := find?_of_findIdx? hfirst hget
    have hj := batchesOk_rule.loaded hp hload j (List.mem_of_getElem? hget)
    -- no batch of the job has the new one's id yet
    have hnone : (j.batches.find? fun b' => b'.id = b.id) = none := by
      refine List.find?_eq_none.mpr fun b' hb' heq => ?_
      obtain ⟨hid', hlt⟩ := hj.ids b' hb'
      have hids := of_decide_eq_true heq
      rw [hid', hid] at hids
      have := childId_injective hids
      omega
    have hsteps : frozenSteps (applyAll ([.addBatch b, nextBatch] ++ [touchJob env.now]) j) b.id =
        some (j.steps.map freeze) := by
      show ((j.batches ++ [newBatch b j.steps]).find? fun b' => b'.id = b.id).map _ = _
      have hnew : [newBatch b j.steps].find? (fun b' => b'.id = b.id) = some (newBatch b j.steps) :=
        List.find?_cons_of_pos (decide_eq_true rfl)
      rw [List.find?_append, hnone, hnew]
      rfl
    have hfrozen : Frozen jobID b.id (j.steps.map freeze) pf'.jobs := by
      have hjid : j.id = jobID := by simpa using List.find?_some hfind
      refine frozen_iff.mpr ⟨_, ?_, hsteps⟩
      rw [hjobs]
      exact find?_set_first hfirst (decide_eq_true (hnewid.trans hjid))
    refine ⟨pf, j, newBatch b j.steps, hload, hfind, rfl, ?_⟩
    rw [hout]
    exact ⟨⟨pf', rfl, hfrozen⟩, fun _ hpf => by cases hpf; exact hfrozen⟩

/-- Whatever comes after a batch was created, short of its deletion, its frozen steps are the
plan it was made from, in memory and on disk, and what was supplied to it refers to them. -/
theorem batch_frozen {projectID : String} {es : List Event} {s : State}
    (hrun : Lib.Run (State.Happens projectID) Lib.always State.init es s) {env : Env}
    {jobID : String} {d : BatchDraft} {createdBy : UserRef} {j' : JobVal}
    (hok : (s.exec env projectID (.onJob jobID (.createBatch d createdBy))).2 = .ok (some j')) :
    ∃ pf j b, s.view.loaded env projectID = .ok pf ∧
      (pf.jobs.find? fun j => j.id = jobID) = some j ∧ j'.batches = j.batches ++ [b] ∧
      ∀ es' t, Lib.Run (State.Happens projectID) (fun _ e => ¬ Deletes jobID b.id e.op)
          (s.exec env projectID (.onJob jobID (.createBatch d createdBy))).1 es' t →
        (∃ pf', t.disk = some pf') ∧
        ∀ pf', t.view.file = some pf' ∨ t.disk = some pf' →
          ∃ b', findBatch pf'.jobs jobID b.id = some b' ∧ b'.steps = j.steps.map freeze ∧
            BatchOk b' := by
  obtain ⟨hsok, -⟩ := State.run_refines hrun State.init_ok
  obtain ⟨hsok', hview, hresult⟩ := State.exec_refines hsok env projectID
    (.onJob jobID (.createBatch d createdBy))
  rw [hresult] at hok
  obtain ⟨pf, j, b, hload, hfind, hnew, hfrozen⟩ :=
    createBatch_frozen (batchesOk_rule.holds hrun) hok
  refine ⟨pf, j, b, hload, hfind, hnew, fun es' t hrun' => ?_⟩
  -- the run after the creation, as one of values, keeps the frozen steps
  have hafter : t.view.Frozen jobID b.id (j.steps.map freeze) ∧ t.Ok := by
    refine hrun'.invariant (P := fun t => t.view.Frozen jobID b.id (j.steps.map freeze) ∧ t.Ok)
      ⟨hview ▸ hfrozen, hsok'⟩ fun u e u' hu hop hstep => ?_
    obtain ⟨hok', hview', -⟩ := State.exec_refines hu.2 e.env projectID e.op
    rw [show (u.exec e.env projectID e.op).1 = u' from hstep] at hok' hview'
    rw [hview']
    exact ⟨hu.1.exec hop e.env projectID, hok'⟩
  let create : Event := { env, op := .onJob jobID (.createBatch d createdBy) }
  have hcreate : Lib.Run (State.Happens projectID) Lib.always s [create]
      (s.exec env projectID (.onJob jobID (.createBatch d createdBy))).1 :=
    Lib.Run.single trivial rfl
  have hall : Holds BatchesOk t.view :=
    batchesOk_rule.holds ((hrun.append hcreate).append (hrun'.mono fun _ _ _ => trivial))
  obtain ⟨pf₁, hdisk, hfrozen₁⟩ := hafter.1.disk
  refine ⟨⟨pf₁, hdisk⟩, fun pf' hpf' => ?_⟩
  have hfound : Frozen jobID b.id (j.steps.map freeze) pf'.jobs := by
    rcases hpf' with hpf' | hpf'
    · exact hafter.1.file pf' hpf'
    · rw [show t.disk = some pf₁ from hdisk] at hpf'
      cases hpf'
      exact hfrozen₁
  obtain ⟨b', hb', hsteps⟩ := Option.map_eq_some_iff.mp hfound
  refine ⟨b', hb', hsteps, ?_⟩
  obtain ⟨j₁, hj₁, hb₁⟩ := Option.bind_eq_some_iff.mp hb'
  exact (hall pf' hpf' j₁ (List.mem_of_find?_eq_some hj₁)).each b' (List.mem_of_find?_eq_some hb₁)

/-- A document as a pinned reference names it. -/
def sampleDoc : DocSnapshot where
  hubId := "hub"
  itemId := "item"
  name := "Drawing"
  kind := "f3d"
  versionId := "v1"
  versionNumber := 1
  rootComponentVersionId := ""
  dmProjectId := ""

/-- A job with one step that has a placeholder. -/
def planCalls : List Op :=
  [.createJob "hub" "Plant" { name := "Job", description := "" } default,
    .onJob "j1" (.createStep { title := "Build" }),
    .onJob "j1" (.addPlaceholder "s1" { label := "Drawing" })]

def planned : State := after "p" (calls planCalls) State.init

def proveRun : Op := .onJob "j1" (.createBatch { name := "Run" } default)

/-- What comes after the batch was made: its placeholder is filled, the step it was made from
loses its placeholder and goes, and the project is loaded again. -/
def laterCalls : List Op :=
  [.onJob "j1" (.addFulfillment "b1" { stepId := "s1", placeholderId := "ph1", doc := sampleDoc }
      default),
    .onJob "j1" (.removePlaceholder "s1" "ph1"),
    .onJob "j1" (.deleteStep "s1"),
    .reset,
    .read]

theorem batch_frozen_planChanged :
    ∃ j' pf j b, (planned.exec { now := 1 } "p" proveRun).2 = .ok (some j') ∧
      planned.view.loaded { now := 1 } "p" = .ok pf ∧
      (pf.jobs.find? fun j => j.id = "j1") = some j ∧ j'.batches = j.batches ++ [b] ∧
      ∀ pf', (after "p" (calls laterCalls) (planned.exec { now := 1 } "p" proveRun).1).disk =
          some pf' →
        ∃ b', findBatch pf'.jobs "j1" b.id = some b' ∧ b'.steps = j.steps.map freeze ∧
          BatchOk b' := by
  have hsome : ∃ j', (planned.exec { now := 1 } "p" proveRun).2 = .ok (some j') := by
    have hok : ((planned.exec { now := 1 } "p" proveRun).2.toOption.bind fun r => r).isSome =
        true := by
      decide +kernel
    cases hres : (planned.exec { now := 1 } "p" proveRun).2 with
    | error e =>
      rw [hres] at hok
      cases hok
    | ok r =>
      cases r with
      | none =>
        rw [hres] at hok
        cases hok
      | some j' => exact ⟨j', rfl⟩
  obtain ⟨j', hok⟩ := hsome
  obtain ⟨pf, j, b, hload, hfind, hnew, hlater⟩ :=
    batch_frozen (run_after "p" (calls planCalls) State.init) hok
  refine ⟨j', pf, j, b, hok, hload, hfind, hnew, fun pf' hpf' => ?_⟩
  refine (hlater (calls laterCalls) _ (Lib.Run.foldl _ (fun _ e he => ?_) _)).2 pf' (.inr hpf')
  simp only [calls, laterCalls, List.map_cons, List.map_nil, List.mem_cons, List.not_mem_nil,
    or_false] at he
  rcases he with rfl | rfl | rfl | rfl | rfl <;> exact fun hdel => hdel

/-- As-run artifacts are supplied without a placeholder: the document of this batch names none
of the frozen step's. -/
def artifactCalls : List Op :=
  [proveRun,
    .onJob "j1" (.addFulfillment "b1" { stepId := "s1", doc := sampleDoc, isAsRun := true } default)]

theorem artifact_names_no_placeholder :
    ∃ pf b f, (after "p" (calls artifactCalls) planned).view.file = some pf ∧
      findBatch pf.jobs "j1" "b1" = some b ∧ f ∈ b.fulfillments ∧
      ¬ ∃ bs ∈ b.steps, bs.stepId = f.stepId ∧ ∃ ph ∈ bs.placeholders, ph.id = f.placeholderId := by
  have hany : ((after "p" (calls artifactCalls) planned).view.file.bind fun pf =>
      (findBatch pf.jobs "j1" "b1").bind fun b => b.fulfillments.find? fun f =>
        !b.steps.any fun bs => bs.stepId = f.stepId &&
          bs.placeholders.any fun ph => ph.id = f.placeholderId).isSome = true := by
    decide +kernel
  obtain ⟨f, hf⟩ := Option.isSome_iff_exists.mp hany
  obtain ⟨pf, hpf, hf⟩ := Option.bind_eq_some_iff.mp hf
  obtain ⟨b, hb, hf⟩ := Option.bind_eq_some_iff.mp hf
  refine ⟨pf, b, f, hpf, hb, List.mem_of_find?_eq_some hf, ?_⟩
  rintro ⟨bs, hbs, hid, ph, hph, hphid⟩
  have hnot := List.find?_some hf
  rw [Bool.not_eq_true', List.any_eq_false] at hnot
  refine hnot bs hbs ?_
  simpa [hid] using ⟨ph, hph, hphid⟩

end Production
