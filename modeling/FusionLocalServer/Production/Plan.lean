import FusionLocalServer.Lib.Graph
import FusionLocalServer.Lib.Memory
import FusionLocalServer.Production.Types

/-!
# The operations on a job

Each operation first checks its arguments, and then runs a closure on the job under the
project's lock. The closure looks the job over, fails, or writes; none writes before its
last check. So it is given here as a function from the job's value to an error or to the
list of its writes, in order. A write names the place it is made at by index. What the writes do
to a job's value is defined here (`JobEdit.apply`), and what they do to the objects in
memory with the store.

The clock is read once for each operation.
-/

namespace Production

open Lib (Time trimSpace)
open Lib.Memory (SliceEdit)

/-! ## Writes -/

/-- A write through a pointer to a step. -/
inductive StepEdit where
  | fields (f : StepHeader → StepHeader)
  | results (e : SliceEdit DecisionResult)
  | planDocs (e : SliceEdit PlanDoc)
  | placeholders (e : SliceEdit Placeholder)

/-- A write through a pointer to a batch. -/
inductive BatchEdit where
  | fields (f : BatchHeader → BatchHeader)
  | fulfillments (e : SliceEdit Fulfillment)
  | refs (e : SliceEdit String)
  | hiddenSteps (e : SliceEdit String)

/-- A write through a pointer to a job. -/
inductive JobEdit where
  | fields (f : JobHeader → JobHeader)
  | edges (e : SliceEdit Edge)
  /-- Appends a new step without results and documents. -/
  | addStep (st : StepHeader)
  | removeStep (i : Nat)
  | onStep (i : Nat) (e : StepEdit)
  /-- Appends a new batch, of a frozen copy of the plan as it stands. -/
  | addBatch (b : BatchHeader)
  | removeBatch (i : Nat)
  | onBatch (i : Nat) (e : BatchEdit)

def StepEdit.apply (st : StepVal) : StepEdit → StepVal
  | .fields f => { st with toStepHeader := f st.toStepHeader }
  | .results e => { st with results := e.apply st.results }
  | .planDocs e => { st with planDocs := e.apply st.planDocs }
  | .placeholders e => { st with placeholders := e.apply st.placeholders }

def BatchEdit.apply (b : BatchVal) : BatchEdit → BatchVal
  | .fields f => { b with toBatchHeader := f b.toBatchHeader }
  | .fulfillments e => { b with fulfillments := e.apply b.fulfillments }
  | .refs e => { b with refs := e.apply b.refs }
  | .hiddenSteps e => { b with hiddenSteps := e.apply b.hiddenSteps }

/-- A step of the plan as `CreateStep` makes it. -/
def newStep (st : StepHeader) : StepVal :=
  { toStepHeader := st, results := [], planDocs := [], placeholders := [] }

/-- A batch as `CreateBatch` makes it. -/
def newBatch (b : BatchHeader) (steps : List StepVal) : BatchVal :=
  { toBatchHeader := b, steps := steps.map freeze, fulfillments := [], refs := []
    hiddenSteps := [] }

def JobEdit.apply (j : JobVal) : JobEdit → JobVal
  | .fields f => { j with toJobHeader := f j.toJobHeader }
  | .edges e => { j with edges := e.apply j.edges }
  | .addStep st => { j with steps := j.steps ++ [newStep st] }
  | .removeStep i => { j with steps := j.steps.eraseIdx i }
  | .onStep i e => { j with steps := j.steps.modify i fun st => e.apply st }
  | .addBatch b => { j with batches := j.batches ++ [newBatch b j.steps] }
  | .removeBatch i => { j with batches := j.batches.eraseIdx i }
  | .onBatch i e => { j with batches := j.batches.modify i fun b => e.apply b }

/-- The job after the writes. -/
def applyAll (edits : List JobEdit) (j : JobVal) : JobVal := edits.foldl JobEdit.apply j

/-! ## Closures -/

/-- The closure of an operation on a job. -/
abbrev JobOp := JobVal → Except Err (List JobEdit)

def nextStep : JobEdit := .fields fun j => { j with nextStepNum := j.nextStepNum + 1 }
def nextBatch : JobEdit := .fields fun j => { j with nextBatchNum := j.nextBatchNum + 1 }
def nextChild : JobEdit := .fields fun j => { j with nextChildNum := j.nextChildNum + 1 }

/-- `j.UpdatedAt = now` -/
def touchJob (now : Time) : JobEdit := .fields fun j => { j with updatedAt := now }

/-- `st.UpdatedAt = now` -/
def touchStep (i : Nat) (now : Time) : JobEdit :=
  .onStep i (.fields fun st => { st with updatedAt := now })

/-- `b.UpdatedAt = now` -/
def touchBatch (i : Nat) (now : Time) : JobEdit :=
  .onBatch i (.fields fun b => { b with updatedAt := now })

/-- Goes on with the step of the id, and its index. -/
def withStep (stepID : String) (f : JobVal → Nat → StepVal → Except Err (List JobEdit)) :
    JobOp := fun j =>
  match j.steps.findIdx? fun st => st.id = stepID with
  | none => .error (.notFound "step %q" [stepID])
  | some i =>
    match j.steps[i]? with
    | none => .error (.notFound "step %q" [stepID])
    | some st => f j i st

/-- Goes on with the batch of the id, and its index. -/
def withBatch (batchID : String) (f : JobVal → Nat → BatchVal → Except Err (List JobEdit)) :
    JobOp := fun j =>
  match j.batches.findIdx? fun b => b.id = batchID with
  | none => .error (.notFound "batch %q" [batchID])
  | some i =>
    match j.batches[i]? with
    | none => .error (.notFound "batch %q" [batchID])
    | some b => f j i b

def findStep (j : JobVal) (stepID : String) : Option StepVal :=
  j.steps.find? fun st => st.id = stepID

def findResult (st : StepVal) (resultID : String) : Option DecisionResult :=
  st.results.find? fun r => r.id = resultID

def findBatchStep (b : BatchVal) (stepID : String) : Option BatchStepVal :=
  b.steps.find? fun bs => bs.stepId = stepID

def batchStepHasPlaceholder (bs : BatchStepVal) (placeholderID : String) : Bool :=
  bs.placeholders.any fun ph => ph.id = placeholderID

/-- The edges as pairs of step ids. -/
def links (edges : List Edge) : List (String × String) :=
  edges.map fun e => (e.fromStep, e.toStep)

/-- The target is reachable from the start by following edges. -/
def reaches (j : JobVal) (start target : String) : Bool :=
  Lib.Graph.reaches (links j.edges) start target

/-! ### The job itself -/

/-- Trims the text in place, if there is one. -/
def trimmed (s : Option String) : Option String := s.map trimSpace

/-- Checks what a patch sets. -/
def checkSome {α : Type} (validate : α → Except Err Unit) : Option α → Except Err Unit
  | none => .ok ()
  | some v => validate v

def updateJob (p : JobPatch) : Except Err JobOp := do
  let name := trimmed p.name
  checkSome validateName name
  checkSome validateDesc p.description
  pure fun _ => .ok [.fields fun j =>
    { j with
      name := name.getD j.name
      description := p.description.getD j.description }]

/-! ### Steps -/

def createStep (now : Time) (d : StepDraft) : Except Err JobOp := do
  let title := trimSpace d.title
  validateName title
  validateDesc d.description
  let kind := if d.kind = "" then "step" else d.kind
  if kind ∉ StepKinds then throw (.invalid "unknown step kind %q" [kind])
  pure fun j =>
    if MaxStepsPerJob ≤ j.steps.length then
      .error (.invalid s!"job already has {MaxStepsPerJob} steps")
    else
      .ok [.addStep
          { id := childId "s" j.nextStepNum, kind, num := j.nextStepNum, title
            description := d.description, x := d.x, y := d.y, createdAt := now
            updatedAt := now },
        nextStep]

def updateStep (now : Time) (stepID : String) (p : StepPatch) : Except Err JobOp := do
  let title := trimmed p.title
  checkSome validateName title
  checkSome validateDesc p.description
  pure <| withStep stepID fun _ i _ => .ok [.onStep i (.fields fun st =>
    { st with
      title := title.getD st.title
      description := p.description.getD st.description
      x := (p.position.map Position.x).getD st.x
      y := (p.position.map Position.y).getD st.y
      updatedAt := now })]

def deleteStep (stepID : String) : Except Err JobOp :=
  pure <| withStep stepID fun _ i _ => .ok
    [.removeStep i, .edges (.filter fun e => e.fromStep ≠ stepID && e.toStep ≠ stepID)]

/-! ### Edges -/

def addEdge (fromStep fromResultID toStep : String) : Except Err JobOp :=
  pure fun j =>
    if fromStep = toStep then .error (.invalid "an edge cannot loop a step to itself")
    else
      match findStep j fromStep, findStep j toStep with
      | some src, some _ =>
        if IsDecision src.kind ∧ fromResultID = "" then
          .error (.invalid "an edge from a decision must name the result it branches on")
        else if IsDecision src.kind ∧ findResult src fromResultID = none then
          .error (.invalid "result %q is not on step %q" [fromResultID, fromStep])
        else if ¬ IsDecision src.kind ∧ fromResultID ≠ "" then
          .error (.invalid "only a decision step has results to branch on")
        else if j.edges.any fun e => e.fromStep = fromStep && e.fromResultId = fromResultID &&
            e.toStep = toStep then
          .error (.invalid "that edge already exists")
        else if MaxEdgesPerJob ≤ j.edges.length then
          .error (.invalid s!"job already has {MaxEdgesPerJob} edges")
        else if reaches j toStep fromStep then
          .error (.invalid "that edge would create a cycle")
        else
          .ok [.edges (.append
              { id := childId "e" j.nextChildNum, fromStep, fromResultId := fromResultID
                toStep }),
            nextChild]
      | _, _ => .error (.invalid "both steps must exist")

def deleteEdge (edgeID : String) : Except Err JobOp :=
  pure fun j =>
    match j.edges.findIdx? fun e => e.id = edgeID with
    | none => .error (.notFound "edge %q" [edgeID])
    | some i => .ok [.edges (.removeAt i)]

/-! ### Plan documents -/

def attachPlanDoc (now : Time) (stepID : String) (doc : DocSnapshot) (addedBy : UserRef) :
    Except Err JobOp := do
  validateSnapshot doc
  pure <| withStep stepID fun j i st =>
    if IsDecision st.kind then .error (.invalid "a decision step carries no documents")
    else if MaxPlanDocsPerStep ≤ st.planDocs.length then
      .error (.invalid s!"step already has {MaxPlanDocsPerStep} plan documents")
    else
      .ok [.onStep i (.planDocs (.append
          { id := childId "pd" j.nextChildNum, doc, addedBy, addedAt := now })),
        nextChild, touchStep i now]

def removePlanDoc (now : Time) (stepID planDocID : String) : Except Err JobOp :=
  pure <| withStep stepID fun _ i st =>
    match st.planDocs.findIdx? fun pd => pd.id = planDocID with
    | none => .error (.notFound "plan document %q" [planDocID])
    | some k => .ok [.onStep i (.planDocs (.removeAt k)), touchStep i now]

/-! ### Results of a decision -/

def addResult (now : Time) (stepID : String) (d : ResultDraft) : Except Err JobOp := do
  let label := trimSpace d.label
  validateLabel label
  let color := if d.color = "" then "green" else d.color
  if color ∉ ResultColors then throw (.invalid "unknown result color %q" [color])
  pure <| withStep stepID fun j i st =>
    if ¬ IsDecision st.kind then .error (.invalid "only a decision step has results")
    else if MaxResultsPerStep ≤ st.results.length then
      .error (.invalid s!"step already has {MaxResultsPerStep} results")
    else
      .ok [.onStep i (.results (.append { id := childId "dr" j.nextChildNum, label, color })),
        nextChild, touchStep i now]

def updateResult (now : Time) (stepID resultID : String) (p : ResultPatch) :
    Except Err JobOp := do
  let label := trimmed p.label
  checkSome validateLabel label
  if let some color := p.color then
    if color ∉ ResultColors then throw (.invalid "unknown result color %q" [color])
  pure <| withStep stepID fun _ i st =>
    match st.results.findIdx? fun r => r.id = resultID with
    | none => .error (.notFound "result %q" [resultID])
    | some k =>
      let r := st.results.getD k default
      .ok [.onStep i (.results (.setAt k
          { r with label := label.getD r.label, color := p.color.getD r.color })),
        touchStep i now]

def removeResult (now : Time) (stepID resultID : String) : Except Err JobOp :=
  pure <| withStep stepID fun _ i st =>
    match st.results.findIdx? fun r => r.id = resultID with
    | none => .error (.notFound "result %q" [resultID])
    | some k =>
      .ok [.onStep i (.results (.removeAt k)),
        .edges (.filter fun e => !(e.fromStep = stepID && e.fromResultId = resultID)),
        touchStep i now]

/-! ### Placeholders -/

def addPlaceholder (now : Time) (stepID : String) (d : PlaceholderDraft) :
    Except Err JobOp := do
  let label := trimSpace d.label
  validateLabel label
  validateShortField "kind" d.kind
  pure <| withStep stepID fun j i st =>
    if IsDecision st.kind then .error (.invalid "a decision step carries no document slots")
    else if MaxPlaceholdersPerStep ≤ st.placeholders.length then
      .error (.invalid s!"step already has {MaxPlaceholdersPerStep} placeholders")
    else
      .ok [.onStep i (.placeholders (.append
          { id := childId "ph" j.nextChildNum, label, kind := d.kind
            required := d.required })),
        nextChild, touchStep i now]

def updatePlaceholder (now : Time) (stepID placeholderID : String) (p : PlaceholderPatch) :
    Except Err JobOp := do
  let label := trimmed p.label
  checkSome validateLabel label
  checkSome (validateShortField "kind") p.kind
  pure <| withStep stepID fun _ i st =>
    match st.placeholders.findIdx? fun ph => ph.id = placeholderID with
    | none => .error (.notFound "placeholder %q" [placeholderID])
    | some k =>
      let ph := st.placeholders.getD k default
      .ok [.onStep i (.placeholders (.setAt k
          { ph with
            label := label.getD ph.label
            kind := p.kind.getD ph.kind
            required := p.required.getD ph.required })),
        touchStep i now]

def removePlaceholder (now : Time) (stepID placeholderID : String) : Except Err JobOp :=
  pure <| withStep stepID fun _ i st =>
    match st.placeholders.findIdx? fun ph => ph.id = placeholderID with
    | none => .error (.notFound "placeholder %q" [placeholderID])
    | some k => .ok [.onStep i (.placeholders (.removeAt k)), touchStep i now]

/-! ### Batches -/

def createBatch (now : Time) (d : BatchDraft) (createdBy : UserRef) : Except Err JobOp := do
  let name := trimSpace d.name
  validateName name
  let kind := if d.kind = "" then "prove" else d.kind
  if kind ∉ BatchKinds then throw (.invalid "unknown batch kind %q" [kind])
  let runAt := d.runAt.getD now
  pure fun j =>
    if MaxBatchesPerJob ≤ j.batches.length then
      .error (.invalid s!"job already has {MaxBatchesPerJob} batches")
    else
      .ok [.addBatch
          { id := childId "b" j.nextBatchNum, num := j.nextBatchNum, name, kind, runAt
            status := "planned", createdBy, createdAt := now, updatedAt := now },
        nextBatch]

def updateBatch (now : Time) (batchID : String) (p : BatchPatch) : Except Err JobOp := do
  let name := trimmed p.name
  checkSome validateName name
  if let some kind := p.kind then
    if kind ∉ BatchKinds then throw (.invalid "unknown batch kind %q" [kind])
  if let some status := p.status then
    if status ∉ BatchStatuses then throw (.invalid "unknown batch status %q" [status])
  pure <| withBatch batchID fun _ i _ => .ok [.onBatch i (.fields fun b =>
    { b with
      name := name.getD b.name
      kind := p.kind.getD b.kind
      status := p.status.getD b.status
      runAt := p.runAt.getD b.runAt
      updatedAt := now })]

def deleteBatch (batchID : String) : Except Err JobOp :=
  pure <| withBatch batchID fun _ i _ => .ok [.removeBatch i]

/-! ### Fulfillments -/

def addFulfillment (now : Time) (batchID : String) (d : FulfillmentDraft)
    (suppliedBy : UserRef) : Except Err JobOp := do
  validateSnapshot d.doc
  validateShortField "source" d.source
  if d.stepId = "" then throw (.invalid "stepId is required")
  pure <| withBatch batchID fun j i b =>
    match findBatchStep b d.stepId with
    | none => .error (.notFound "step %q in this batch" [d.stepId])
    | some bs =>
      if d.placeholderId ≠ "" ∧ ¬ batchStepHasPlaceholder bs d.placeholderId then
        .error (.notFound "placeholder %q in this batch" [d.placeholderId])
      else if d.placeholderId ≠ "" ∧ b.fulfillments.any fun f =>
          f.stepId = d.stepId && f.placeholderId = d.placeholderId then
        .error (.invalid
          "that placeholder is already fulfilled — remove the existing document first")
      else if MaxFulfillmentsPerBatch ≤ b.fulfillments.length then
        .error (.invalid s!"batch already has {MaxFulfillmentsPerBatch} supplied documents")
      else
        .ok [.onBatch i (.fulfillments (.append
            { id := childId "f" j.nextChildNum, stepId := d.stepId
              placeholderId := d.placeholderId, doc := d.doc, source := d.source
              isAsRun := d.isAsRun, suppliedBy, suppliedAt := now })),
          nextChild, touchBatch i now]

def removeFulfillment (now : Time) (batchID fulfillmentID : String) : Except Err JobOp :=
  pure <| withBatch batchID fun _ i b =>
    match b.fulfillments.findIdx? fun f => f.id = fulfillmentID with
    | none => .error (.notFound "fulfillment %q" [fulfillmentID])
    | some k => .ok [.onBatch i (.fulfillments (.removeAt k)), touchBatch i now]

/-! ### References and hidden steps -/

/-- A token already there is left as it is. -/
def addBatchRef (now : Time) (batchID token : String) : Except Err JobOp := do
  let token := trimSpace token
  validateRefToken token
  pure <| withBatch batchID fun _ i b =>
    if token ∈ b.refs then .ok []
    else if MaxRefsPerBatch ≤ b.refs.length then
      .error (.invalid s!"batch already has {MaxRefsPerBatch} references")
    else .ok [.onBatch i (.refs (.append token)), touchBatch i now]

def removeBatchRef (now : Time) (batchID token : String) : Except Err JobOp :=
  pure <| withBatch batchID fun _ i b =>
    match b.refs.findIdx? fun r => r = token with
    | none => .error (.notFound "reference not found" [])
    | some k => .ok [.onBatch i (.refs (.removeAt k)), touchBatch i now]

def setBatchStepHidden (now : Time) (batchID stepID : String) (hidden : Bool) :
    Except Err JobOp :=
  pure <| withBatch batchID fun _ i b =>
    match findBatchStep b stepID with
    | none => .error (.notFound "step %q is not part of this run" [stepID])
    | some _ =>
      match hidden, b.hiddenSteps.findIdx? fun id => id = stepID with
      | true, none => .ok [.onBatch i (.hiddenSteps (.append stepID)), touchBatch i now]
      | false, some k => .ok [.onBatch i (.hiddenSteps (.removeAt k)), touchBatch i now]
      | _, _ => .ok []

def hideBatchStep (now : Time) (batchID stepID : String) : Except Err JobOp :=
  setBatchStepHidden now batchID stepID true

def showBatchStep (now : Time) (batchID stepID : String) : Except Err JobOp :=
  setBatchStepHidden now batchID stepID false

/-! ## The calls -/

/-- A call of an operation on a job. -/
inductive JobCall where
  | updateJob (p : JobPatch)
  | createStep (d : StepDraft)
  | updateStep (stepID : String) (p : StepPatch)
  | deleteStep (stepID : String)
  | addEdge (fromStep fromResultID toStep : String)
  | deleteEdge (edgeID : String)
  | attachPlanDoc (stepID : String) (doc : DocSnapshot) (addedBy : UserRef)
  | removePlanDoc (stepID planDocID : String)
  | addResult (stepID : String) (d : ResultDraft)
  | updateResult (stepID resultID : String) (p : ResultPatch)
  | removeResult (stepID resultID : String)
  | addPlaceholder (stepID : String) (d : PlaceholderDraft)
  | updatePlaceholder (stepID placeholderID : String) (p : PlaceholderPatch)
  | removePlaceholder (stepID placeholderID : String)
  | createBatch (d : BatchDraft) (createdBy : UserRef)
  | updateBatch (batchID : String) (p : BatchPatch)
  | deleteBatch (batchID : String)
  | addFulfillment (batchID : String) (d : FulfillmentDraft) (suppliedBy : UserRef)
  | removeFulfillment (batchID fulfillmentID : String)
  | addBatchRef (batchID token : String)
  | removeBatchRef (batchID token : String)
  | hideBatchStep (batchID stepID : String)
  | showBatchStep (batchID stepID : String)

/-- The checked call's closure. -/
def JobCall.closure (now : Time) : JobCall → Except Err JobOp
  | .updateJob p => Production.updateJob p
  | .createStep d => Production.createStep now d
  | .updateStep stepID p => Production.updateStep now stepID p
  | .deleteStep stepID => Production.deleteStep stepID
  | .addEdge fromStep fromResultID toStep => Production.addEdge fromStep fromResultID toStep
  | .deleteEdge edgeID => Production.deleteEdge edgeID
  | .attachPlanDoc stepID doc addedBy => Production.attachPlanDoc now stepID doc addedBy
  | .removePlanDoc stepID planDocID => Production.removePlanDoc now stepID planDocID
  | .addResult stepID d => Production.addResult now stepID d
  | .updateResult stepID resultID p => Production.updateResult now stepID resultID p
  | .removeResult stepID resultID => Production.removeResult now stepID resultID
  | .addPlaceholder stepID d => Production.addPlaceholder now stepID d
  | .updatePlaceholder stepID id p => Production.updatePlaceholder now stepID id p
  | .removePlaceholder stepID id => Production.removePlaceholder now stepID id
  | .createBatch d createdBy => Production.createBatch now d createdBy
  | .updateBatch batchID p => Production.updateBatch now batchID p
  | .deleteBatch batchID => Production.deleteBatch batchID
  | .addFulfillment batchID d suppliedBy =>
    Production.addFulfillment now batchID d suppliedBy
  | .removeFulfillment batchID id => Production.removeFulfillment now batchID id
  | .addBatchRef batchID token => Production.addBatchRef now batchID token
  | .removeBatchRef batchID token => Production.removeBatchRef now batchID token
  | .hideBatchStep batchID stepID => Production.hideBatchStep now batchID stepID
  | .showBatchStep batchID stepID => Production.showBatchStep now batchID stepID

end Production
