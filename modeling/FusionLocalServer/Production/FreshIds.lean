import FusionLocalServer.Lib.Names
import FusionLocalServer.Production.Invariant

/-!
# Ids are not given twice

The steps, edges, results, documents, placeholders, batches and supplied documents of a job have
ids of their letters and a number that a counter of the job gives out: one counter counts the
steps, one the batches, and one all the rest. A counter only grows, and a copy of a job takes the
counters along with the children; so an id that is given out is new as long as the counters were
above the ids when the job was loaded. The loader sees to that only for jobs without children.
-/

namespace Production

open Lib (Time Issues flatMap_modify_subperm flatMap_modify flatMap_modify_subperm_self
  flatMap_eraseIdx_subperm)
open Lib.Memory (SliceEdit)
open FusionLocalServer.Storage

/-! ## The children of a job -/

def stepIds (st : StepVal) : List String :=
  st.id :: (st.results.map (·.id) ++ st.planDocs.map (·.id) ++ st.placeholders.map (·.id))

def batchIds (b : BatchVal) : List String := b.id :: b.fulfillments.map (·.id)

/-- The ids in a job's plan, which copies of the job take over. -/
def planIds (j : JobVal) : List String := j.steps.flatMap stepIds ++ j.edges.map (·.id)

/-- The ids of all children of a job. The steps that a batch has frozen are copies. -/
def childIds (j : JobVal) : List String := planIds j ++ j.batches.flatMap batchIds

/-- The letters that the ids of children begin with. -/
def childLetters : List String := ["s", "b", "e", "pd", "dr", "ph", "f"]

/-- The counter that the ids with these letters come from. -/
def counterOf (h : JobHeader) (letters : String) : Int :=
  if letters = "s" then h.nextStepNum
  else if letters = "b" then h.nextBatchNum
  else h.nextChildNum

/-- None of the ids has a number that its counter has still to give out. -/
def Below (h : JobHeader) (ids : List String) : Prop :=
  ∀ letters ∈ childLetters, ∀ n, counterOf h letters ≤ n → childId letters n ∉ ids

theorem Below.mono {h h' : JobHeader} {ids ids' : List String} (hbelow : Below h ids)
    (hle : ∀ letters, counterOf h letters ≤ counterOf h' letters) (hsub : ids' ⊆ ids) :
    Below h' ids' :=
  fun letters hletters n hn hmem =>
    hbelow letters hletters n (Int.le_trans (hle letters) hn) (hsub hmem)

/-- The letters of an id are read off it. -/
theorem letters_of_childId {letters : String} (h : letters ∈ childLetters) (n : Int) :
    (childId letters n).toList.takeWhile Char.isAlpha = letters.toList := by
  have hdigits : ∀ k : Nat, (Nat.toDigits 10 k).takeWhile Char.isAlpha = [] := by
    intro k
    obtain ⟨d, ds, hcons, -, -⟩ := Lib.toDigits_eq_cons (n := k)
    have hd : d.isDigit = true := Lib.isDigit_of_mem_toDigits (hcons ▸ List.mem_cons_self)
    obtain ⟨hlt, hchar⟩ := Lib.digitChar_of_isDigit hd
    have hnot : ∀ m < 10, (Nat.digitChar m).isAlpha = false := by decide
    rw [hcons, List.takeWhile_cons_of_neg (by rw [← hchar, hnot _ hlt]; exact Bool.false_ne_true)]
  have hstop : (Lib.formatInt n).takeWhile Char.isAlpha = [] := by
    unfold Lib.formatInt
    split
    · exact hdigits _
    · rfl
  have hall : ∀ l ∈ childLetters, l.toList.all Char.isAlpha = true := by decide
  unfold childId
  rw [String.toList_append, String.toList_ofList,
    List.takeWhile_append_of_pos (List.all_eq_true.mp (hall letters h)), hstop, List.append_nil]

theorem childId_inj {l l' : String} (hl : l ∈ childLetters) (hl' : l' ∈ childLetters) {n n' : Int}
    (h : childId l n = childId l' n') : l = l' ∧ n = n' := by
  have hletters : l = l' := by
    rw [← String.toList_inj, ← letters_of_childId hl n, h, letters_of_childId hl' n']
  subst hletters
  exact ⟨rfl, childId_injective h⟩

/-! ## What a call adds -/

/-- The job has at most the children it had and one with the next number of its counter, and no
counter has gone back. Nothing in the plan gets an id like a batch. -/
structure Adds (j j' : JobVal) : Prop where
  counters : ∀ letters, counterOf j.toJobHeader letters ≤ counterOf j'.toJobHeader letters
  ids : (childIds j').Subperm (childIds j) ∨ ∃ letters ∈ childLetters,
    (childIds j').Subperm (childIds j ++ [childId letters (counterOf j.toJobHeader letters)]) ∧
    counterOf j.toJobHeader letters < counterOf j'.toJobHeader letters
  plan : ∀ n, childId "b" n ∈ planIds j' → childId "b" n ∈ planIds j

/-- The edges, results, documents and the like have a counter in common. -/
theorem counterOf_child (h : JobHeader) {letters : String} (hs : letters ≠ "s")
    (hb : letters ≠ "b") : counterOf h letters = h.nextChildNum := by
  unfold counterOf
  rw [if_neg hs, if_neg hb]

theorem Adds.refl (j : JobVal) : Adds j j :=
  ⟨fun _ => Int.le_refl _, .inl (List.Subperm.refl _), fun _ => id⟩

/-- What follows the children's change changes neither them nor the counters any more. -/
theorem Adds.congr {j j' j'' : JobVal} (h : Adds j j') (hplan : planIds j'' = planIds j')
    (hruns : j''.batches.flatMap batchIds = j'.batches.flatMap batchIds)
    (hcounters : ∀ letters, counterOf j''.toJobHeader letters = counterOf j'.toJobHeader letters) :
    Adds j j'' := by
  have hids : childIds j'' = childIds j' := by rw [childIds, hplan, hruns, childIds]
  refine ⟨fun letters => hcounters letters ▸ h.counters letters, ?_, hplan ▸ h.plan⟩
  rw [hids]
  rcases h.ids with hids | ⟨letters, hletters, hids, hlt⟩
  · exact .inl hids
  · exact .inr ⟨letters, hletters, hids, hcounters letters ▸ hlt⟩

/-- A call that adds nothing. -/
theorem Adds.none {j j' : JobVal} (hheader : j'.toJobHeader = j.toJobHeader)
    (hplan : (planIds j').Subperm (planIds j))
    (hruns : (j'.batches.flatMap batchIds).Subperm (j.batches.flatMap batchIds)) : Adds j j' :=
  ⟨fun _ => Int.le_of_eq (by rw [hheader]), .inl (hplan.append hruns),
    fun _ hmem => hplan.subset hmem⟩

/-- The counter of some letters goes on, and no other goes back. -/
def Counts (letters : String) (next : JobEdit) : Prop :=
  ∃ f, next = .fields f ∧ ∀ h, (∀ l, counterOf h l ≤ counterOf (f h) l) ∧
    counterOf h letters < counterOf (f h) letters

/-- A child is added under the next number, which is then taken. -/
theorem Adds.one {j j' : JobVal} {letters : String} (hletters : letters ∈ childLetters)
    {next : JobEdit} (hnext : Counts letters next) (hheader : j'.toJobHeader = j.toJobHeader)
    (hids : (childIds j').Subperm
      (childIds j ++ [childId letters (counterOf j.toJobHeader letters)]))
    (hplan : ∀ n, childId "b" n ∈ planIds j' → childId "b" n ∈ planIds j) :
    Adds j (next.apply j') := by
  obtain ⟨f, rfl, hf⟩ := hnext
  obtain ⟨hle, hlt⟩ := hf j'.toJobHeader
  rw [hheader] at hle hlt
  exact ⟨hheader.symm ▸ hle, .inr ⟨letters, hletters, hids, hheader.symm ▸ hlt⟩, hplan⟩

/-- New names in front of other names are new names. -/
theorem subperm_front {new xs xs' ys : List String} (h : xs'.Subperm (xs ++ new)) :
    (xs' ++ ys).Subperm (xs ++ ys ++ new) := by
  refine (h.append (List.Subperm.refl ys)).trans (List.Perm.subperm ?_)
  rw [List.append_assoc, List.append_assoc]
  exact List.perm_append_comm.append_left _

theorem subperm_under {new : List String} {a : String} {xs xs' : List String}
    (h : xs'.Subperm (xs ++ new)) : (a :: xs').Subperm (a :: xs ++ new) :=
  (List.subperm_cons a).mpr h

theorem subperm_back {new xs ys ys' : List String} (h : ys'.Subperm (ys ++ new)) :
    (xs ++ ys').Subperm (xs ++ ys ++ new) := by
  rw [List.append_assoc]
  exact (List.Subperm.refl xs).append h

/-- A child is added to the plan. -/
theorem Adds.toPlan {j j' : JobVal} (letters : String) (hletters : letters ∈ childLetters)
    (hb : letters ≠ "b") {next : JobEdit} (hnext : Counts letters next)
    (hheader : j'.toJobHeader = j.toJobHeader)
    (hplan : (planIds j').Subperm
      (planIds j ++ [childId letters (counterOf j.toJobHeader letters)]))
    (hruns : j'.batches.flatMap batchIds = j.batches.flatMap batchIds) :
    Adds j (next.apply j') := by
  refine .one hletters hnext hheader ?_ fun n hmem => ?_
  · unfold childIds
    rw [hruns]
    exact subperm_front hplan
  · rcases List.mem_append.mp (hplan.subset hmem) with hmem | hmem
    · exact hmem
    · exact absurd (childId_inj (by decide) hletters (List.mem_singleton.mp hmem)).1.symm hb

/-- A batch, or something of one, is added. -/
theorem Adds.toRuns {j j' : JobVal} (letters : String) (hletters : letters ∈ childLetters)
    {next : JobEdit} (hnext : Counts letters next) (hheader : j'.toJobHeader = j.toJobHeader)
    (hplan : planIds j' = planIds j)
    (hruns : (j'.batches.flatMap batchIds).Subperm (j.batches.flatMap batchIds ++
      [childId letters (counterOf j.toJobHeader letters)])) :
    Adds j (next.apply j') := by
  refine .one hletters hnext hheader ?_ fun n hmem => hplan ▸ hmem
  unfold childIds
  rw [hplan]
  exact subperm_back hruns

theorem nextStep_counts : Counts "s" nextStep := by
  refine ⟨_, rfl, fun h => ⟨fun l => ?_, ?_⟩⟩
  · unfold counterOf
    split
    · exact Int.le_add_one (Int.le_refl _)
    · exact Int.le_refl _
  · exact Int.lt_succ _

theorem nextBatch_counts : Counts "b" nextBatch := by
  refine ⟨_, rfl, fun h => ⟨fun l => ?_, ?_⟩⟩
  · unfold counterOf
    split
    · exact Int.le_refl _
    · split
      · exact Int.le_add_one (Int.le_refl _)
      · exact Int.le_refl _
  · exact Int.lt_succ _

theorem nextChild_counts {letters : String} (hs : letters ≠ "s") (hb : letters ≠ "b") :
    Counts letters nextChild := by
  refine ⟨_, rfl, fun h => ⟨fun l => ?_, ?_⟩⟩
  · unfold counterOf
    split
    · exact Int.le_refl _
    · split
      · exact Int.le_refl _
      · exact Int.le_add_one (Int.le_refl _)
  · rw [counterOf_child h hs hb, counterOf_child _ hs hb]
    exact Int.lt_succ _

section Writes

variable {j : JobVal} {new : List String}

theorem planIds_onStep {i : Nat} {e : StepEdit} {st : StepVal} (hget : j.steps[i]? = some st)
    (h : (stepIds (e.apply st)).Subperm (stepIds st ++ new)) :
    (planIds ((JobEdit.onStep i e).apply j)).Subperm (planIds j ++ new) :=
  subperm_front (flatMap_modify_subperm hget h)

/-- A write into a step that leaves its ids. -/
theorem planIds_onStep_same {i : Nat} {e : StepEdit}
    (h : ∀ st, stepIds (e.apply st) = stepIds st) :
    planIds ((JobEdit.onStep i e).apply j) = planIds j :=
  congrArg (· ++ _) (flatMap_modify h)

theorem planIds_touchStep (i : Nat) (now : Time) :
    planIds ((touchStep i now).apply j) = planIds j :=
  planIds_onStep_same fun _ => rfl

theorem runs_touchBatch (i : Nat) (now : Time) :
    ((touchBatch i now).apply j).batches.flatMap batchIds = j.batches.flatMap batchIds :=
  flatMap_modify fun _ => rfl

/-- A child is added to a step. -/
theorem adds_toStep (letters : String) (hletters : letters ∈ childLetters) (hs : letters ≠ "s")
    (hb : letters ≠ "b") {i : Nat} {e : StepEdit} {st : StepVal} {now : Time}
    (hget : j.steps[i]? = some st)
    (h : (stepIds (e.apply st)).Subperm (stepIds st ++ [childId letters j.nextChildNum])) :
    Adds j (applyAll [.onStep i e, nextChild, touchStep i now] j) := by
  rw [← counterOf_child j.toJobHeader hs hb] at h
  have hadd : Adds j (nextChild.apply ((JobEdit.onStep i e).apply j)) :=
    .toPlan letters hletters hb (nextChild_counts hs hb) rfl (planIds_onStep hget h) rfl
  exact hadd.congr (planIds_touchStep i now) rfl fun _ => rfl

/-- At most something is taken out of a step. -/
theorem adds_onStep {i : Nat} {e : StepEdit} {st : StepVal} {now : Time}
    (hget : j.steps[i]? = some st) (h : (stepIds (e.apply st)).Subperm (stepIds st ++ [])) :
    Adds j (applyAll [.onStep i e, touchStep i now] j) := by
  have hsub := planIds_onStep hget h
  rw [List.append_nil] at hsub
  have hnone : Adds j ((JobEdit.onStep i e).apply j) := .none rfl hsub (List.Subperm.refl _)
  exact hnone.congr (planIds_touchStep i now) rfl fun _ => rfl

/-- Something is taken out of a batch, or nothing of it has an id. -/
theorem adds_onBatch {i : Nat} {e : BatchEdit} {now : Time}
    (h : ∀ b, (batchIds (e.apply b)).Subperm (batchIds b)) :
    Adds j (applyAll [.onBatch i e, touchBatch i now] j) := by
  have hnone : Adds j ((JobEdit.onBatch i e).apply j) :=
    .none rfl (List.Subperm.refl _) (flatMap_modify_subperm_self h)
  exact hnone.congr rfl (runs_touchBatch i now) fun _ => rfl

theorem stepIds_results {st : StepVal} {e : SliceEdit DecisionResult}
    (h : ((e.apply st.results).map (·.id)).Subperm (st.results.map (·.id) ++ new)) :
    (stepIds ((StepEdit.results e).apply st)).Subperm (stepIds st ++ new) :=
  subperm_under (subperm_front (subperm_front h))

theorem stepIds_planDocs {st : StepVal} {e : SliceEdit PlanDoc}
    (h : ((e.apply st.planDocs).map (·.id)).Subperm (st.planDocs.map (·.id) ++ new)) :
    (stepIds ((StepEdit.planDocs e).apply st)).Subperm (stepIds st ++ new) :=
  subperm_under (subperm_front (subperm_back h))

theorem stepIds_placeholders {st : StepVal} {e : SliceEdit Placeholder}
    (h : ((e.apply st.placeholders).map (·.id)).Subperm (st.placeholders.map (·.id) ++ new)) :
    (stepIds ((StepEdit.placeholders e).apply st)).Subperm (stepIds st ++ new) :=
  subperm_under (subperm_back h)

end Writes

section Slices

variable {α : Type} {id : α → String}

theorem ids_append {xs : List α} {x : α} :
    (((SliceEdit.append x).apply xs).map id).Subperm (xs.map id ++ [id x]) :=
  (List.map_append (f := id)).symm ▸ List.Subperm.refl _

theorem ids_removeAt {xs : List α} {k : Nat} :
    (((SliceEdit.removeAt k).apply xs).map id).Subperm (xs.map id) :=
  ((List.eraseIdx_sublist ..).map id).subperm

/-- What is taken out is not missed. -/
theorem ids_removed {xs : List α} {k : Nat} :
    (((SliceEdit.removeAt k).apply xs).map id).Subperm (xs.map id ++ []) :=
  (List.append_nil _).symm ▸ ids_removeAt

theorem ids_filter {xs : List α} {keep : α → Bool} :
    (((SliceEdit.filter keep).apply xs).map id).Subperm (xs.map id) :=
  (List.filter_sublist.map id).subperm

/-- An update keeps the id. -/
theorem ids_setAt {xs : List α} {k : Nat} {x y : α} (hget : xs[k]? = some x) (h : id y = id x) :
    (((SliceEdit.setAt k y).apply xs).map id).Subperm (xs.map id ++ []) := by
  have hsame : (xs.map id).set k (id y) = xs.map id := by
    refine List.ext_getElem? fun n => ?_
    rw [List.getElem?_set]
    split
    · next hk =>
      subst hk
      rw [List.getElem?_map, hget, h]
      simp [(List.getElem?_eq_some_iff.mp hget).1]
    · rfl
  show ((xs.set k y).map id).Subperm _
  rw [List.map_set, hsame, List.append_nil]

end Slices

/-- A result is taken out of a step, and the edges that came out of it go with it. -/
theorem adds_prune {j : JobVal} {i k : Nat} {keep : Edge → Bool} {now : Time} :
    Adds j (applyAll
      [.onStep i (.results (.removeAt k)), .edges (.filter keep), touchStep i now] j) := by
  have hstep : ∀ st : StepVal, (stepIds ((StepEdit.results (.removeAt k)).apply st)).Subperm
      (stepIds st) := by
    intro st
    have hsub : (stepIds ((StepEdit.results (.removeAt k)).apply st)).Subperm (stepIds st ++ []) :=
      stepIds_results ids_removed
    rwa [List.append_nil] at hsub
  have hnone : Adds j ((JobEdit.edges (.filter keep)).apply
      ((JobEdit.onStep i (.results (.removeAt k))).apply j)) :=
    .none rfl ((flatMap_modify_subperm_self hstep).append ids_filter) (List.Subperm.refl _)
  exact hnone.congr (planIds_touchStep i now) rfl fun _ => rfl

/-- Every call adds at most one child, with the next number of its counter. -/
theorem adds_call {now : Time} {c : JobCall} {op : JobOp} {j : JobVal} {edits : List JobEdit}
    (h : c.closure now = .ok op) (hop : op j = .ok edits) : Adds j (applyAll edits j) := by
  cases c with
  | updateJob p =>
    obtain ⟨f, rfl, hf⟩ := updateJob_ok h hop
    refine (Adds.refl j).congr rfl rfl fun letters => ?_
    obtain ⟨-, hstep, hbatch, hchild⟩ := hf j.toJobHeader
    show counterOf (f j.toJobHeader) letters = counterOf j.toJobHeader letters
    unfold counterOf
    rw [hstep, hbatch, hchild]
  | createStep d =>
    obtain ⟨st, hid, -, rfl⟩ := createStep_ok h hop
    refine .toPlan "s" (by decide) (by decide) nextStep_counts rfl (subperm_front ?_) rfl
    rw [show counterOf j.toJobHeader "s" = j.nextStepNum from rfl, ← hid]
    show ((j.steps ++ [newStep st]).flatMap stepIds).Subperm _
    rw [List.flatMap_append]
    exact List.Subperm.refl _
  | updateStep stepID p =>
    obtain ⟨i, st, f, hget, rfl, hf⟩ := updateStep_ok h hop
    refine (Adds.refl j).congr (planIds_onStep_same fun st => ?_) rfl fun _ => rfl
    show (f st.toStepHeader).id :: _ = _
    rw [(hf st.toStepHeader).1]
    rfl
  | deleteStep stepID =>
    obtain ⟨i, st, -, -, rfl⟩ := deleteStep_ok h hop
    exact .none rfl (flatMap_eraseIdx_subperm.append ids_filter) (List.Subperm.refl _)
  | addEdge fromStep fromResultID toStep =>
    obtain ⟨i, src, dst, -, e, -, -, -, -, -, -, hid, rfl⟩ := addEdge_ok h hop
    refine .toPlan "e" (by decide) (by decide) (nextChild_counts (by decide) (by decide)) rfl
      (subperm_back ?_) rfl
    rw [show counterOf j.toJobHeader "e" = j.nextChildNum from rfl, ← hid]
    exact ids_append
  | deleteEdge edgeID =>
    obtain ⟨k, rfl⟩ := deleteEdge_ok h hop
    exact .none rfl ((List.Subperm.refl _).append ids_removeAt) (List.Subperm.refl _)
  | attachPlanDoc stepID doc addedBy =>
    obtain ⟨i, st, pd, hget, -, hid, rfl⟩ := attachPlanDoc_ok h hop
    refine adds_toStep "pd" (by decide) (by decide) (by decide) hget (stepIds_planDocs ?_)
    exact hid ▸ ids_append
  | removePlanDoc stepID planDocID =>
    obtain ⟨i, st, k, hget, rfl⟩ := removePlanDoc_ok h hop
    exact adds_onStep hget (stepIds_planDocs ids_removed)
  | addResult stepID d =>
    obtain ⟨i, st, r, hget, -, hid, rfl⟩ := addResult_ok h hop
    refine adds_toStep "dr" (by decide) (by decide) (by decide) hget (stepIds_results ?_)
    exact hid ▸ ids_append
  | updateResult stepID resultID p =>
    obtain ⟨i, st, k, r, r', hget, hr, hid, rfl⟩ := updateResult_ok h hop
    exact adds_onStep hget (stepIds_results (ids_setAt hr hid))
  | removeResult stepID resultID =>
    obtain ⟨i, st, k, r, hget, -, -, -, rfl⟩ := removeResult_ok h hop
    exact adds_prune
  | addPlaceholder stepID d =>
    obtain ⟨i, st, ph, hget, -, hid, rfl⟩ := addPlaceholder_ok h hop
    refine adds_toStep "ph" (by decide) (by decide) (by decide) hget (stepIds_placeholders ?_)
    exact hid ▸ ids_append
  | updatePlaceholder stepID placeholderID p =>
    obtain ⟨i, st, k, old, ph, hget, hold, hid, rfl⟩ := updatePlaceholder_ok h hop
    exact adds_onStep hget (stepIds_placeholders (ids_setAt hold hid))
  | removePlaceholder stepID placeholderID =>
    obtain ⟨i, st, k, hget, rfl⟩ := removePlaceholder_ok h hop
    exact adds_onStep hget (stepIds_placeholders ids_removed)
  | createBatch d createdBy =>
    obtain ⟨b, hid, -, rfl⟩ := createBatch_ok h hop
    refine .toRuns "b" (by decide) nextBatch_counts rfl rfl ?_
    rw [show counterOf j.toJobHeader "b" = j.nextBatchNum from rfl, ← hid]
    show ((j.batches ++ [newBatch b j.steps]).flatMap batchIds).Subperm _
    rw [List.flatMap_append]
    exact List.Subperm.refl _
  | updateBatch batchID p =>
    obtain ⟨i, f, rfl, hf⟩ := updateBatch_ok h hop
    refine (Adds.refl j).congr rfl (flatMap_modify fun b => ?_) fun _ => rfl
    show (f b.toBatchHeader).id :: _ = _
    rw [(hf b.toBatchHeader).1]
    rfl
  | deleteBatch batchID =>
    obtain ⟨i, b, -, -, rfl⟩ := deleteBatch_ok h hop
    exact .none rfl (List.Subperm.refl _) flatMap_eraseIdx_subperm
  | addFulfillment batchID d suppliedBy =>
    obtain ⟨i, b, f, hget, -, -, hid, rfl⟩ := addFulfillment_ok h hop
    have hone : Adds j (nextChild.apply ((JobEdit.onBatch i (.fulfillments (.append f))).apply j)) :=
      .toRuns "f" (by decide) (nextChild_counts (by decide) (by decide)) rfl rfl
        (flatMap_modify_subperm hget (subperm_under (hid ▸ ids_append)))
    exact hone.congr rfl (runs_touchBatch i now) fun _ => rfl
  | removeFulfillment batchID fulfillmentID =>
    obtain ⟨i, k, rfl⟩ := removeFulfillment_ok h hop
    exact adds_onBatch fun b => (List.subperm_cons _).mpr ids_removeAt
  | addBatchRef batchID token =>
    obtain rfl | ⟨i, t, rfl⟩ := addBatchRef_ok h hop
    · exact Adds.refl j
    · exact adds_onBatch fun b => List.Subperm.refl _
  | removeBatchRef batchID token =>
    obtain ⟨i, k, rfl⟩ := removeBatchRef_ok h hop
    exact adds_onBatch fun b => List.Subperm.refl _
  | hideBatchStep batchID stepID | showBatchStep batchID stepID =>
    obtain rfl | ⟨i, b, -, -, -, rfl⟩ | ⟨i, k, rfl⟩ := setBatchStepHidden_ok h hop
    · exact Adds.refl j
    · exact adds_onBatch fun b => List.Subperm.refl _
    · exact adds_onBatch fun b => List.Subperm.refl _

/-- The id of what is added is new if the ids used were below the counters, and they are then
still below them. -/
theorem Adds.issues {j j' : JobVal} {used : List String} (h : Adds j j')
    (hbelow : Below j.toJobHeader used) (hused : childIds j ⊆ used) :
    Issues (childIds j) used (childIds j') ∧ Below j'.toJobHeader (used ++ childIds j') := by
  have hold := hbelow.mono h.counters (List.Subset.refl used)
  rcases h.ids with hids | ⟨letters, hletters, hids, hlt⟩
  · refine ⟨.of_subperm hids, fun l hl n hn hmem => hold l hl n hn ?_⟩
    rcases List.mem_append.mp hmem with hmem | hmem
    · exact hmem
    · exact hused (hids.subset hmem)
  · refine ⟨.of_subperm_one hids (hbelow letters hletters _ (Int.le_refl _)) hused,
      fun l hl n hn hmem => ?_⟩
    rcases List.mem_append.mp hmem with hmem | hmem
    · exact hold l hl n hn hmem
    · rcases List.mem_append.mp (hids.subset hmem) with hmem | hmem
      · exact hold l hl n hn (hused hmem)
      · -- the number was the counter's, which has passed it
        obtain ⟨rfl, rfl⟩ := childId_inj hl hletters (List.mem_singleton.mp hmem)
        exact absurd (Int.lt_of_lt_of_le hlt hn) (Int.lt_irrefl _)

end Production
