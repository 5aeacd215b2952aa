import FusionLocalServer.Lib.Checks
import FusionLocalServer.Production.Plan

/-!
# What a call can do to a job

For each operation on a job, the writes it makes when neither its checks nor its closure's
fail, with what the checks have established. The invariants of a job are proved from these
alone.
-/

namespace Production

open Lib (Time bind_ok guard_ok refuse_ok findIdx_ok find_ok)

/-! ## Lookups -/

section Lookups

variable {j : JobVal} {edits : List JobEdit}

theorem withStep_ok {stepID : String}
    {f : JobVal → Nat → StepVal → Except Err (List JobEdit)}
    (h : withStep stepID f j = .ok edits) :
    ∃ i st, j.steps[i]? = some st ∧ st.id = stepID ∧ f j i st = .ok edits := by
  unfold withStep at h
  split at h
  · cases h
  · next i hidx =>
    split at h
    · cases h
    · next st hget =>
      obtain ⟨x, hx, hid⟩ := findIdx_ok hidx
      rw [hget] at hx
      cases hx
      exact ⟨i, _, hget, of_decide_eq_true hid, h⟩

theorem withBatch_ok {batchID : String}
    {f : JobVal → Nat → BatchVal → Except Err (List JobEdit)}
    (h : withBatch batchID f j = .ok edits) :
    ∃ i b, j.batches[i]? = some b ∧ b.id = batchID ∧ f j i b = .ok edits := by
  unfold withBatch at h
  split at h
  · cases h
  · next i hidx =>
    split at h
    · cases h
    · next b hget =>
      obtain ⟨x, hx, hid⟩ := findIdx_ok hidx
      rw [hget] at hx
      cases hx
      exact ⟨i, _, hget, of_decide_eq_true hid, h⟩

end Lookups

/-! ## The calls -/

section Calls

variable {now : Time} {op : JobOp} {j : JobVal} {edits : List JobEdit}

theorem updateJob_ok {p : JobPatch} (h : updateJob p = .ok op) (hop : op j = .ok edits) :
    ∃ f : JobHeader → JobHeader, edits = [.fields f] ∧
      ∀ h, (f h).id = h.id ∧ (f h).nextStepNum = h.nextStepNum ∧
        (f h).nextBatchNum = h.nextBatchNum ∧ (f h).nextChildNum = h.nextChildNum := by
  obtain ⟨-, -, h⟩ := bind_ok h
  obtain ⟨-, -, h⟩ := bind_ok h
  cases h
  cases hop
  exact ⟨_, rfl, fun _ => ⟨rfl, rfl, rfl, rfl⟩⟩

theorem createStep_ok {d : StepDraft} (h : createStep now d = .ok op)
    (hop : op j = .ok edits) :
    ∃ st, st.id = childId "s" j.nextStepNum ∧ st.num = j.nextStepNum ∧
      edits = [.addStep st, nextStep] := by
  obtain ⟨-, -, h⟩ := bind_ok h
  obtain ⟨-, -, h⟩ := bind_ok h
  obtain ⟨-, h⟩ := guard_ok h
  cases h
  obtain ⟨-, hop⟩ := refuse_ok hop
  cases hop
  exact ⟨_, rfl, rfl, rfl⟩

theorem updateStep_ok {stepID : String} {p : StepPatch} (h : updateStep now stepID p = .ok op)
    (hop : op j = .ok edits) :
    ∃ i st, ∃ f : StepHeader → StepHeader, j.steps[i]? = some st ∧
      edits = [.onStep i (.fields f)] ∧
      ∀ h, (f h).id = h.id ∧ (f h).num = h.num ∧ (f h).kind = h.kind := by
  obtain ⟨-, -, h⟩ := bind_ok h
  obtain ⟨-, -, h⟩ := bind_ok h
  cases h
  obtain ⟨i, st, hget, -, hop⟩ := withStep_ok hop
  cases hop
  exact ⟨i, st, _, hget, rfl, fun _ => ⟨rfl, rfl, rfl⟩⟩

theorem deleteStep_ok {stepID : String} (h : deleteStep stepID = .ok op)
    (hop : op j = .ok edits) :
    ∃ i st, j.steps[i]? = some st ∧ st.id = stepID ∧
      edits = [.removeStep i,
        .edges (.filter fun e => e.fromStep ≠ stepID && e.toStep ≠ stepID)] := by
  cases h
  obtain ⟨i, st, hget, hid, hop⟩ := withStep_ok hop
  cases hop
  exact ⟨i, st, hget, hid, rfl⟩

theorem addEdge_ok {fromStep fromResultID toStep : String}
    (h : addEdge fromStep fromResultID toStep = .ok op) (hop : op j = .ok edits) :
    ∃ i : Nat, ∃ src : StepVal, ∃ dst ∈ j.steps, ∃ e : Edge, j.steps[i]? = some src ∧ src.id = e.fromStep ∧
      dst.id = e.toStep ∧
      (if IsDecision src.kind then ∃ r ∈ src.results, r.id = e.fromResultId
        else e.fromResultId = "") ∧
      (∀ e' ∈ j.edges, ¬ (e'.fromStep = e.fromStep ∧ e'.fromResultId = e.fromResultId ∧
        e'.toStep = e.toStep)) ∧
      reaches j e.toStep e.fromStep = false ∧ e.id = childId "e" j.nextChildNum ∧
      edits = [.edges (.append e), nextChild] := by
  cases h
  obtain ⟨-, hop⟩ := refuse_ok hop
  split at hop
  · next src dst hsrc hdst =>
    obtain ⟨hnamed, hop⟩ := refuse_ok hop
    obtain ⟨hfound, hop⟩ := refuse_ok hop
    obtain ⟨hplain, hop⟩ := refuse_ok hop
    obtain ⟨hnew, hop⟩ := refuse_ok hop
    obtain ⟨-, hop⟩ := refuse_ok hop
    obtain ⟨hcycle, hop⟩ := refuse_ok hop
    cases hop
    obtain ⟨hsrcmem, hsrcid⟩ := find_ok hsrc
    obtain ⟨hdstmem, hdstid⟩ := find_ok hdst
    obtain ⟨i, hi⟩ := List.getElem?_of_mem hsrcmem
    refine ⟨i, src, dst, hdstmem, _, hi, hsrcid, hdstid, ?_,
      fun e' he' heq => hnew ?_, Bool.eq_false_iff.mpr hcycle, rfl, rfl⟩
    · split
      · next hkind =>
        cases hres : findResult src fromResultID with
        | none => exact absurd ⟨hkind, hres⟩ hfound
        | some r => exact ⟨r, find_ok hres⟩
      · next hkind =>
        by_cases hempty : fromResultID = ""
        · exact hempty
        · exact absurd ⟨hkind, hempty⟩ hplain
    · refine List.any_eq_true.mpr ⟨e', he', ?_⟩
      simp [heq]
  · cases hop

theorem deleteEdge_ok {edgeID : String} (h : deleteEdge edgeID = .ok op)
    (hop : op j = .ok edits) : ∃ k, edits = [.edges (.removeAt k)] := by
  cases h
  dsimp only at hop
  split at hop
  · cases hop
  · next k _ =>
    cases hop
    exact ⟨k, rfl⟩

theorem attachPlanDoc_ok {stepID : String} {doc : DocSnapshot} {addedBy : UserRef}
    (h : attachPlanDoc now stepID doc addedBy = .ok op) (hop : op j = .ok edits) :
    ∃ i st pd, j.steps[i]? = some st ∧ ¬ IsDecision st.kind ∧
      pd.id = childId "pd" j.nextChildNum ∧
      edits = [.onStep i (.planDocs (.append pd)), nextChild, touchStep i now] := by
  obtain ⟨-, -, h⟩ := bind_ok h
  cases h
  obtain ⟨i, st, hget, -, hop⟩ := withStep_ok hop
  obtain ⟨hkind, hop⟩ := refuse_ok hop
  obtain ⟨-, hop⟩ := refuse_ok hop
  cases hop
  exact ⟨i, st, _, hget, hkind, rfl, rfl⟩

theorem removePlanDoc_ok {stepID planDocID : String}
    (h : removePlanDoc now stepID planDocID = .ok op) (hop : op j = .ok edits) :
    ∃ i st k, j.steps[i]? = some st ∧
      edits = [.onStep i (.planDocs (.removeAt k)), touchStep i now] := by
  cases h
  obtain ⟨i, st, hget, -, hop⟩ := withStep_ok hop
  split at hop
  · cases hop
  · next k _ =>
    cases hop
    exact ⟨i, st, k, hget, rfl⟩

theorem addResult_ok {stepID : String} {d : ResultDraft}
    (h : addResult now stepID d = .ok op) (hop : op j = .ok edits) :
    ∃ i st r, j.steps[i]? = some st ∧ IsDecision st.kind ∧
      r.id = childId "dr" j.nextChildNum ∧
      edits = [.onStep i (.results (.append r)), nextChild, touchStep i now] := by
  obtain ⟨-, -, h⟩ := bind_ok h
  obtain ⟨-, h⟩ := guard_ok h
  cases h
  obtain ⟨i, st, hget, -, hop⟩ := withStep_ok hop
  obtain ⟨hkind, hop⟩ := refuse_ok hop
  obtain ⟨-, hop⟩ := refuse_ok hop
  cases hop
  exact ⟨i, st, _, hget, not_not.mp hkind, rfl, rfl⟩

theorem updateResult_ok {stepID resultID : String} {p : ResultPatch}
    (h : updateResult now stepID resultID p = .ok op) (hop : op j = .ok edits) :
    ∃ i st k r r', j.steps[i]? = some st ∧ st.results[k]? = some r ∧ r'.id = r.id ∧
      edits = [.onStep i (.results (.setAt k r')), touchStep i now] := by
  obtain ⟨-, -, h⟩ := bind_ok h
  have hclosure : ∃ f, op = withStep stepID f ∧ ∀ i st, f j i st = .ok edits →
      ∃ k r r', st.results[k]? = some r ∧ r'.id = r.id ∧
        edits = [.onStep i (.results (.setAt k r')), touchStep i now] := by
    obtain ⟨label, color⟩ := p
    cases color
    case' some => obtain ⟨-, h⟩ := guard_ok h
    all_goals
      cases h
      refine ⟨_, rfl, fun i st hf => ?_⟩
      split at hf
      · cases hf
      · next k hk =>
        cases hf
        obtain ⟨r, hr, -⟩ := findIdx_ok hk
        refine ⟨k, r, _, hr, ?_, rfl⟩
        simp [List.getD_eq_getElem?_getD, hr]
  obtain ⟨f, rfl, hf⟩ := hclosure
  obtain ⟨i, st, hget, -, hop⟩ := withStep_ok hop
  obtain ⟨k, r, r', hr, hid, hedits⟩ := hf i st hop
  exact ⟨i, st, k, r, r', hget, hr, hid, hedits⟩

theorem removeResult_ok {stepID resultID : String}
    (h : removeResult now stepID resultID = .ok op) (hop : op j = .ok edits) :
    ∃ i st k r, j.steps[i]? = some st ∧ st.id = stepID ∧ st.results[k]? = some r ∧
      r.id = resultID ∧
      edits = [.onStep i (.results (.removeAt k)),
        .edges (.filter fun e => !(e.fromStep = stepID && e.fromResultId = resultID)),
        touchStep i now] := by
  cases h
  obtain ⟨i, st, hget, hid, hop⟩ := withStep_ok hop
  split at hop
  · cases hop
  · next k hk =>
    cases hop
    obtain ⟨r, hr, hrid⟩ := findIdx_ok hk
    exact ⟨i, st, k, r, hget, hid, hr, of_decide_eq_true hrid, rfl⟩

theorem addPlaceholder_ok {stepID : String} {d : PlaceholderDraft}
    (h : addPlaceholder now stepID d = .ok op) (hop : op j = .ok edits) :
    ∃ i st ph, j.steps[i]? = some st ∧ ¬ IsDecision st.kind ∧
      ph.id = childId "ph" j.nextChildNum ∧
      edits = [.onStep i (.placeholders (.append ph)), nextChild, touchStep i now] := by
  obtain ⟨-, -, h⟩ := bind_ok h
  obtain ⟨-, -, h⟩ := bind_ok h
  cases h
  obtain ⟨i, st, hget, -, hop⟩ := withStep_ok hop
  obtain ⟨hkind, hop⟩ := refuse_ok hop
  obtain ⟨-, hop⟩ := refuse_ok hop
  cases hop
  exact ⟨i, st, _, hget, hkind, rfl, rfl⟩

theorem updatePlaceholder_ok {stepID placeholderID : String} {p : PlaceholderPatch}
    (h : updatePlaceholder now stepID placeholderID p = .ok op) (hop : op j = .ok edits) :
    ∃ i st k old ph, j.steps[i]? = some st ∧ st.placeholders[k]? = some old ∧ ph.id = old.id ∧
      edits = [.onStep i (.placeholders (.setAt k ph)), touchStep i now] := by
  obtain ⟨-, -, h⟩ := bind_ok h
  obtain ⟨-, -, h⟩ := bind_ok h
  cases h
  obtain ⟨i, st, hget, -, hop⟩ := withStep_ok hop
  split at hop
  · cases hop
  · next k hk =>
    cases hop
    obtain ⟨old, hold, -⟩ := findIdx_ok hk
    refine ⟨i, st, k, old, _, hget, hold, ?_, rfl⟩
    simp [List.getD_eq_getElem?_getD, hold]

theorem removePlaceholder_ok {stepID placeholderID : String}
    (h : removePlaceholder now stepID placeholderID = .ok op) (hop : op j = .ok edits) :
    ∃ i st k, j.steps[i]? = some st ∧
      edits = [.onStep i (.placeholders (.removeAt k)), touchStep i now] := by
  cases h
  obtain ⟨i, st, hget, -, hop⟩ := withStep_ok hop
  split at hop
  · cases hop
  · next k _ =>
    cases hop
    exact ⟨i, st, k, hget, rfl⟩

theorem createBatch_ok {d : BatchDraft} {createdBy : UserRef}
    (h : createBatch now d createdBy = .ok op) (hop : op j = .ok edits) :
    ∃ b, b.id = childId "b" j.nextBatchNum ∧ b.num = j.nextBatchNum ∧
      edits = [.addBatch b, nextBatch] := by
  obtain ⟨-, -, h⟩ := bind_ok h
  obtain ⟨-, h⟩ := guard_ok h
  cases h
  obtain ⟨-, hop⟩ := refuse_ok hop
  cases hop
  exact ⟨_, rfl, rfl, rfl⟩

theorem updateBatch_ok {batchID : String} {p : BatchPatch}
    (h : updateBatch now batchID p = .ok op) (hop : op j = .ok edits) :
    ∃ i, ∃ f : BatchHeader → BatchHeader, edits = [.onBatch i (.fields f)] ∧
      ∀ h, (f h).id = h.id ∧ (f h).num = h.num := by
  obtain ⟨-, -, h⟩ := bind_ok h
  have hclosure : ∃ f : BatchHeader → BatchHeader,
      op = withBatch batchID (fun _ i _ => .ok [.onBatch i (.fields f)]) ∧
      ∀ h, (f h).id = h.id ∧ (f h).num = h.num := by
    obtain ⟨name, kind, status, runAt⟩ := p
    cases kind
    case' some => obtain ⟨-, h⟩ := guard_ok h
    all_goals cases status
    case' none.some | some.some => obtain ⟨-, h⟩ := guard_ok h
    all_goals
      cases h
      exact ⟨_, rfl, fun _ => ⟨rfl, rfl⟩⟩
  obtain ⟨f, rfl, hf⟩ := hclosure
  obtain ⟨i, b, -, -, hop⟩ := withBatch_ok hop
  cases hop
  exact ⟨i, f, rfl, hf⟩

theorem deleteBatch_ok {batchID : String} (h : deleteBatch batchID = .ok op)
    (hop : op j = .ok edits) :
    ∃ i b, j.batches[i]? = some b ∧ b.id = batchID ∧ edits = [.removeBatch i] := by
  cases h
  obtain ⟨i, b, hget, hid, hop⟩ := withBatch_ok hop
  cases hop
  exact ⟨i, b, hget, hid, rfl⟩

theorem addFulfillment_ok {batchID : String} {d : FulfillmentDraft} {suppliedBy : UserRef}
    (h : addFulfillment now batchID d suppliedBy = .ok op) (hop : op j = .ok edits) :
    ∃ i b, ∃ f : Fulfillment, j.batches[i]? = some b ∧
      (∃ bs ∈ b.steps, bs.stepId = f.stepId ∧
        (f.placeholderId ≠ "" → ∃ ph ∈ bs.placeholders, ph.id = f.placeholderId)) ∧
      (f.placeholderId ≠ "" → ∀ f' ∈ b.fulfillments,
        ¬ (f'.stepId = f.stepId ∧ f'.placeholderId = f.placeholderId)) ∧
      f.id = childId "f" j.nextChildNum ∧
      edits = [.onBatch i (.fulfillments (.append f)), nextChild, touchBatch i now] := by
  obtain ⟨-, -, h⟩ := bind_ok h
  obtain ⟨-, -, h⟩ := bind_ok h
  obtain ⟨-, h⟩ := guard_ok h
  cases h
  obtain ⟨i, b, hget, -, hop⟩ := withBatch_ok hop
  split at hop
  · cases hop
  · next bs hbs =>
    obtain ⟨hslot, hop⟩ := refuse_ok hop
    obtain ⟨hfree, hop⟩ := refuse_ok hop
    obtain ⟨-, hop⟩ := refuse_ok hop
    cases hop
    obtain ⟨hmem, hid⟩ := find_ok hbs
    refine ⟨i, b, _, hget, ⟨bs, hmem, hid, fun hne => ?_⟩, fun hne f' hf' heq => ?_, rfl, rfl⟩
    · have hany : batchStepHasPlaceholder bs d.placeholderId = true := by
        by_contra hnot
        exact hslot ⟨hne, hnot⟩
      obtain ⟨ph, hph, hid⟩ := List.any_eq_true.mp hany
      exact ⟨ph, hph, of_decide_eq_true hid⟩
    · refine hfree ⟨hne, List.any_eq_true.mpr ⟨f', hf', ?_⟩⟩
      simp [heq]

theorem removeFulfillment_ok {batchID fulfillmentID : String}
    (h : removeFulfillment now batchID fulfillmentID = .ok op) (hop : op j = .ok edits) :
    ∃ i k, edits = [.onBatch i (.fulfillments (.removeAt k)), touchBatch i now] := by
  cases h
  obtain ⟨i, b, -, -, hop⟩ := withBatch_ok hop
  split at hop
  · cases hop
  · next k _ =>
    cases hop
    exact ⟨i, k, rfl⟩

theorem addBatchRef_ok {batchID token : String} (h : addBatchRef now batchID token = .ok op)
    (hop : op j = .ok edits) :
    edits = [] ∨ ∃ i t, edits = [.onBatch i (.refs (.append t)), touchBatch i now] := by
  obtain ⟨-, -, h⟩ := bind_ok h
  cases h
  obtain ⟨i, b, -, -, hop⟩ := withBatch_ok hop
  split at hop
  · cases hop
    exact .inl rfl
  · obtain ⟨-, hop⟩ := refuse_ok hop
    cases hop
    exact .inr ⟨i, _, rfl⟩

theorem removeBatchRef_ok {batchID token : String}
    (h : removeBatchRef now batchID token = .ok op) (hop : op j = .ok edits) :
    ∃ i k, edits = [.onBatch i (.refs (.removeAt k)), touchBatch i now] := by
  cases h
  obtain ⟨i, b, -, -, hop⟩ := withBatch_ok hop
  split at hop
  · cases hop
  · next k _ =>
    cases hop
    exact ⟨i, k, rfl⟩

theorem setBatchStepHidden_ok {batchID stepID : String} {hidden : Bool}
    (h : setBatchStepHidden now batchID stepID hidden = .ok op) (hop : op j = .ok edits) :
    edits = [] ∨
      (∃ i b, j.batches[i]? = some b ∧ (∃ bs ∈ b.steps, bs.stepId = stepID) ∧
        stepID ∉ b.hiddenSteps ∧
        edits = [.onBatch i (.hiddenSteps (.append stepID)), touchBatch i now]) ∨
      ∃ i k, edits = [.onBatch i (.hiddenSteps (.removeAt k)), touchBatch i now] := by
  cases h
  obtain ⟨i, b, hget, -, hop⟩ := withBatch_ok hop
  split at hop
  · cases hop
  · next bs hbs =>
    split at hop
    · next hnone _ =>
      cases hop
      refine .inr (.inl ⟨i, b, hget, ⟨bs, find_ok hbs⟩, fun hmem => ?_, rfl⟩)
      have hnot := List.findIdx?_eq_none_iff.mp hnone stepID hmem
      simp at hnot
    · cases hop
      exact .inr (.inr ⟨i, _, rfl⟩)
    · cases hop
      exact .inl rfl

end Calls

end Production
