import FusionLocalServer.Lib.Groups
import FusionLocalServer.Tasks.Schedule
import Mathlib.Data.Prod.Lex
import Mathlib.Tactic.Linarith

/-!
# The board of tasks

A column of the board is the tasks of one status, by rank and then by number. A card that is
dropped gets a rank from the cards it lands between: the midpoint of theirs, or one beyond the
card at the end. The client computes it from the list it has, which may be stale, and the store
takes the rank as it comes.

Two drops on stale lists can so leave two cards of one rank in a column. A card dropped between
these gets the same rank once more, and goes where its number puts it. Every other drop on a list
that is up to date lands where it was dropped (`drop_lands_iff`).
-/

namespace Tasks

open Lib (Time)
open FusionLocalServer.Storage

/-! ## Columns -/

/-- Whether a card comes before another: `a.rank - b.rank || a.num - b.num` is negative. -/
def comesBefore (a b : TaskVal) : Bool :=
  if a.rank - b.rank = 0 then a.num - b.num < 0 else a.rank - b.rank < 0

/-- The cards of a column. -/
def byStatus (tasks : List TaskVal) (status : String) : List TaskVal :=
  if status ∈ Statuses then Lib.sortBy comesBefore (tasks.filter fun t => t.status = status) else []

def findCard (tasks : List TaskVal) (id : String) : Option TaskVal := tasks.find? fun t => t.id = id

/-- The column a drop is on: a column itself, or that of a card. -/
def columnOf (tasks : List TaskVal) (overId : String) : Option String :=
  if overId = "" then none
  else if "col:".toList <+: overId.toList then some (String.ofList (overId.toList.drop 4))
  else (findCard tasks overId).map (·.status)

/-! ## Drops -/

/-- A drop: the card, the column, the place among the column's other cards, and the new rank. -/
structure Drop where
  task : TaskVal
  status : String
  index : Nat
  rank : Rat

/-- The rank for a place between two cards, or at an end. -/
def rankBetween : Option Rat → Option Rat → Rat
  | none, none => 1024
  | none, some after => after - 1024
  | some before, none => before + 1024
  | some before, some after => (before + after) / 2

/-- Where the card goes in the column it is no longer in. -/
def insertionIndex (column : List TaskVal) (task : TaskVal) (status overId : String) : Nat :=
  if "col:".toList <+: overId.toList then column.length
  else
    match column.findIdx? fun t => t.id = overId with
    | none => column.length
    | some i =>
      -- dragging downward within a column lands after the card it is over
      if status = task.status ∧ ∃ card ∈ column[i]?, task.rank < card.rank then i + 1 else i

/-- `handleDragEnd`, up to what it sends. -/
def handleDragEnd (tasks : List TaskVal) (activeId overId : String) : Option Drop := do
  if activeId = overId then none
  else
    let task ← findCard tasks activeId
    let status ← columnOf tasks overId
    if status = "" then none
    else
      let column := (byStatus tasks status).filter fun t => t.id ≠ task.id
      let index := insertionIndex column task status overId
      some {
        task, status, index
        rank := rankBetween ((Lib.preceding column index).map (·.rank)) (column[index]?.map (·.rank)) }

/-- What is sent, unless the card stays as it is. -/
def Drop.patch (d : Drop) : Option Patch :=
  if d.status = d.task.status ∧ d.rank = d.task.rank then none
  else some { status := some d.status, rank := some d.rank }

/-- The store once a drop has reached it. -/
def Drop.settle (d : Drop) (projectID : String) (env : Env) (s : State) : State :=
  match d.patch with
  | none => s
  | some p => (s.exec env projectID (.update d.task.id p)).1

/-- What the board's clients do: they create tasks, change the status of one, and drop a card
on a list of tasks they have, whatever it is. -/
inductive BoardOp : Op → Prop
  | create (hubID projectName : String) (d : Draft) (createdBy : UserRef) :
      BoardOp (.create hubID projectName d createdBy)
  | setStatus (taskID status : String) : BoardOp (.update taskID { status := some status })
  | drop {view : List TaskVal} {activeId overId : String} {d : Drop} {p : Patch} :
      handleDragEnd view activeId overId = some d → d.patch = some p →
        BoardOp (.update d.task.id p)
  | read : BoardOp .read

/-- What a client sends for a drop on the list it has; with nothing to send it reads. -/
def dropOp (view : List TaskVal) (activeId overId : String) : Op :=
  match handleDragEnd view activeId overId with
  | none => .read
  | some d => d.patch.elim .read (.update d.task.id)

/-- What can be dropped on: the columns, and cards. -/
def Droppable (overId : String) : Prop :=
  "col:".toList <+: overId.toList → String.ofList (overId.toList.drop 4) ∈ Statuses

/-! ## Landing -/

/-- The ids of a column's cards. -/
def cards (tasks : List TaskVal) (status : String) : List String := (byStatus tasks status).map (·.id)

/-- The card is at its place in the column, and all else is as it was without it. -/
def Drop.Lands (d : Drop) (old new : List TaskVal) : Prop :=
  ∀ status, cards new status =
    if status = d.status then ((cards old status).filter (· ≠ d.task.id)).insertIdx d.index d.task.id
    else (cards old status).filter (· ≠ d.task.id)

/-- The cards the dropped one lands among. -/
def Drop.others (d : Drop) (tasks : List TaskVal) : List TaskVal :=
  (byStatus tasks d.status).filter fun t => t.id ≠ d.task.id

/-- The place is between two cards of one rank, and not the one the card's number gives it
among these. -/
def Drop.Tied (d : Drop) (tasks : List TaskVal) : Prop :=
  ∃ before ∈ Lib.preceding (d.others tasks) d.index, ∃ after ∈ (d.others tasks)[d.index]?,
    before.rank = after.rank ∧ ¬ (before.num < d.task.num ∧ d.task.num < after.num)

instance (d : Drop) (tasks : List TaskVal) : Decidable (d.Tied tasks) := by
  unfold Drop.Tied
  infer_instance

/-! ## The order of a column -/

/-- Where a card stands: its rank, then its number. -/
def place (t : TaskVal) : Rat ×ₗ Int := toLex (t.rank, t.num)

theorem place_lt {a b : TaskVal} :
    place a < place b ↔ a.rank < b.rank ∨ a.rank = b.rank ∧ a.num < b.num :=
  Prod.Lex.toLex_lt_toLex

theorem comesBefore_iff (a b : TaskVal) : comesBefore a b = true ↔ place a < place b := by
  rw [place_lt]
  unfold comesBefore
  split
  · next heq =>
    have hrank : a.rank = b.rank := sub_eq_zero.mp heq
    rw [decide_eq_true_iff, sub_neg]
    exact ⟨fun h => .inr ⟨hrank, h⟩, fun h => h.elim (fun hlt => absurd hrank hlt.ne) (·.2)⟩
  · next hne =>
    rw [decide_eq_true_iff, sub_neg]
    exact ⟨.inl, fun h => h.elim id fun ⟨heq, _⟩ => absurd (sub_eq_zero.mpr heq) hne⟩

section Columns

variable {tasks : List TaskVal} {status : String}

theorem byStatus_perm (h : status ∈ Statuses) :
    (byStatus tasks status).Perm (tasks.filter fun t => t.status = status) := by
  rw [byStatus, if_pos h]
  exact Lib.sortBy_perm _ _

theorem byStatus_of_not_mem (h : status ∉ Statuses) : byStatus tasks status = [] := if_neg h

theorem mem_byStatus {t : TaskVal} :
    t ∈ byStatus tasks status ↔ status ∈ Statuses ∧ t ∈ tasks ∧ t.status = status := by
  by_cases h : status ∈ Statuses
  · rw [(byStatus_perm h).mem_iff, List.mem_filter, decide_eq_true_iff]
    exact ⟨fun hmem => ⟨h, hmem⟩, (·.2)⟩
  · rw [byStatus_of_not_mem h]
    exact ⟨fun hmem => absurd hmem List.not_mem_nil, fun hmem => absurd hmem.1 h⟩

/-- Cards of distinct numbers stand at distinct places. -/
theorem pairwise_byStatus (hnums : (tasks.map (·.num)).Nodup) :
    (byStatus tasks status).Pairwise fun a b => place a < place b := by
  by_cases h : status ∈ Statuses
  · have hle : (byStatus tasks status).Pairwise fun a b => place a ≤ place b := by
      rw [byStatus, if_pos h]
      exact Lib.pairwise_sortBy place comesBefore_iff _
    have hne : (byStatus tasks status).Pairwise fun a b => a.num ≠ b.num := by
      rw [← List.pairwise_map (f := fun t : TaskVal => t.num)]
      exact (((byStatus_perm h).map _).nodup_iff).mpr
        (hnums.sublist ((List.filter_sublist).map _))
    refine (hle.and hne).imp fun {a b} hab => lt_of_le_of_ne hab.1 fun heq => hab.2 ?_
    exact congrArg (fun p => (ofLex p).2) heq
  · rw [byStatus_of_not_mem h]
    exact List.Pairwise.nil

/-- The cards of the column, in their order, are the column. -/
theorem byStatus_eq (h : status ∈ Statuses) {column : List TaskVal}
    (hperm : column.Perm (tasks.filter fun t => t.status = status))
    (hsorted : column.Pairwise fun a b => place a < place b) : byStatus tasks status = column := by
  rw [byStatus, if_pos h]
  exact Lib.sortBy_eq_of_perm comesBefore_iff hperm hsorted

/-- Without one card, the columns are those of the other tasks. -/
theorem filter_byStatus {l₁ l₂ : List TaskVal} {t : TaskVal} (htasks : tasks = l₁ ++ t :: l₂)
    (hids : (tasks.map (·.id)).Nodup) (hnums : (tasks.map (·.num)).Nodup) :
    (byStatus tasks status).filter (fun u => u.id ≠ t.id) = byStatus (l₁ ++ l₂) status := by
  by_cases h : status ∈ Statuses
  · symm
    refine byStatus_eq h ?_ ((pairwise_byStatus hnums).filter _)
    have hcards : (byStatus tasks status).Perm (tasks.filter fun u => u.status = status) :=
      byStatus_perm h
    have hperm := hcards.filter fun u => u.id ≠ t.id
    have hrest : (tasks.filter fun u => u.status = status).filter (fun u => u.id ≠ t.id) =
        (l₁ ++ l₂).filter fun u => u.status = status := by
      rw [htasks, List.map_append, List.map_cons, List.nodup_middle, List.nodup_cons] at hids
      have hne : ∀ u ∈ l₁ ++ l₂, u.id ≠ t.id := by
        intro u hu heq
        rw [← List.map_append, ← heq] at hids
        exact hids.1 (List.mem_map_of_mem hu)
      have hothers : (l₁ ++ t :: l₂).filter (fun u => u.id ≠ t.id) = l₁ ++ l₂ := by
        rw [List.filter_append, List.filter_cons_of_neg (by simp), ← List.filter_append]
        exact List.filter_eq_self.mpr fun u hu => decide_eq_true (hne u hu)
      rw [List.filter_filter, ← hothers, List.filter_filter, htasks]
      exact List.filter_congr fun u _ => Bool.and_comm _ _
    rwa [hrest] at hperm
  · rw [byStatus_of_not_mem h, byStatus_of_not_mem h]
    rfl

end Columns

/-! ## Where a drop lands -/

theorem handleDragEnd_spec {tasks : List TaskVal} {activeId overId : String} {d : Drop}
    (h : handleDragEnd tasks activeId overId = some d) :
    d.task ∈ tasks ∧ columnOf tasks overId = some d.status ∧
      d.index ≤ (d.others tasks).length ∧
      d.rank = rankBetween ((Lib.preceding (d.others tasks) d.index).map (·.rank))
        ((d.others tasks)[d.index]?.map (·.rank)) := by
  unfold handleDragEnd at h
  split at h
  · cases h
  · obtain ⟨task, htask, h⟩ := Option.bind_eq_some_iff.mp h
    obtain ⟨status, hstatus, h⟩ := Option.bind_eq_some_iff.mp h
    split at h
    · cases h
    · cases h
      refine ⟨List.mem_of_find?_eq_some htask, hstatus, ?_, rfl⟩
      unfold insertionIndex
      split
      · exact Nat.le_refl _
      · split
        · exact Nat.le_refl _
        · next i hi =>
          obtain ⟨card, hover, -⟩ := Lib.findIdx_ok hi
          have hlt := (List.getElem?_eq_some_iff.mp hover).1
          split
          · exact hlt
          · exact hlt.le

/-- The columns there are. -/
theorem status_known {tasks : List TaskVal} (h : ∀ t ∈ tasks, t.status ∈ Statuses)
    {overId status : String} (hover : Droppable overId) (hstatus : columnOf tasks overId = some status) :
    status ∈ Statuses := by
  unfold columnOf at hstatus
  split at hstatus
  · cases hstatus
  · split at hstatus
    · next hcol =>
      cases hstatus
      exact hover hcol
    · obtain ⟨t, ht, rfl⟩ := Option.map_eq_some_iff.mp hstatus
      exact h t (List.mem_of_find?_eq_some ht)

/-- The new rank puts the card between its neighbours, unless these have one rank: then its number
does. -/
theorem between_iff {column : List TaskVal} (hsorted : column.Pairwise fun a b => place a < place b)
    {index : Nat} {t : TaskVal}
    (hrank : t.rank = rankBetween ((Lib.preceding column index).map (·.rank))
      (column[index]?.map (·.rank))) :
    ((∀ a ∈ Lib.preceding column index, place a < place t) ∧
        ∀ b ∈ column[index]?, place t < place b) ↔
      ¬ ∃ before ∈ Lib.preceding column index, ∃ after ∈ column[index]?,
        before.rank = after.rank ∧ ¬ (before.num < t.num ∧ t.num < after.num) := by
  cases hbefore : Lib.preceding column index with
  | none =>
    cases hafter : column[index]? with
    | none => simp
    | some after =>
      rw [hbefore, hafter] at hrank
      have hlt : t.rank < after.rank := by rw [hrank]; exact sub_lt_self _ (by norm_num)
      simp [place_lt, hlt]
  | some before =>
    cases hafter : column[index]? with
    | none =>
      rw [hbefore, hafter] at hrank
      have hlt : before.rank < t.rank := by rw [hrank]; exact lt_add_of_pos_right _ (by norm_num)
      simp [place_lt, hlt]
    | some after =>
      rw [hbefore, hafter] at hrank
      have hmid : t.rank = (before.rank + after.rank) / 2 := hrank
      simp only [Option.mem_some_iff, forall_eq', exists_eq_left', place_lt]
      have hnext := place_lt.mp (Lib.rel_preceding hsorted hbefore hafter)
      rcases hnext with hlt | ⟨heq, -⟩
      · have hlow : before.rank < t.rank := by linarith
        have hhigh : t.rank < after.rank := by linarith
        exact ⟨fun _ h => hlt.ne h.1, fun _ => ⟨.inl hlow, .inl hhigh⟩⟩
      · have hsame : t.rank = before.rank := by linarith
        rw [← heq, hsame]
        simp

/-- **A drop lands where it was dropped exactly if it is not tied.** What the tasks become is the
card in its new column, with its new rank, and all else as it was. -/
theorem Drop.lands_iff {d : Drop} {old new l₁ l₂ : List TaskVal} {card : TaskVal}
    (hold : old = l₁ ++ d.task :: l₂) (hnew : new = l₁ ++ card :: l₂)
    (hids : (old.map (·.id)).Nodup) (hnums : (old.map (·.num)).Nodup)
    (hid : card.id = d.task.id) (hnum : card.num = d.task.num) (hstatus : card.status = d.status)
    (hcard : card.rank = d.rank) (hknown : d.status ∈ Statuses)
    (hindex : d.index ≤ (d.others old).length)
    (hrank : d.rank = rankBetween ((Lib.preceding (d.others old) d.index).map (·.rank))
      ((d.others old)[d.index]?.map (·.rank))) :
    d.Lands old new ↔ ¬ d.Tied old := by
  have hsame : ∀ {β : Type} (f : TaskVal → β), f card = f d.task → new.map f = old.map f := by
    intro β f hf
    rw [hnew, hold, List.map_append, List.map_append, List.map_cons, List.map_cons, hf]
  have hids' : (new.map (·.id)).Nodup := by rwa [hsame (·.id) hid]
  have hnums' : (new.map (·.num)).Nodup := by rwa [hsame (·.num) hnum]
  have hfiltered : ∀ status, (cards old status).filter (· ≠ d.task.id) =
      cards (l₁ ++ l₂) status := by
    intro status
    rw [cards, List.filter_map, cards, ← filter_byStatus hold hids hnums]
    rfl
  have hothers : d.others old = byStatus (l₁ ++ l₂) d.status := filter_byStatus hold hids hnums
  have hsorted : (byStatus new d.status).Pairwise fun a b => place a < place b :=
    pairwise_byStatus hnums'
  have hsorted' : (byStatus (l₁ ++ l₂) d.status).Pairwise fun a b => place a < place b := by
    rw [← hothers]
    exact (pairwise_byStatus hnums).filter _
  have hcolumn : (byStatus new d.status).Perm (card :: byStatus (l₁ ++ l₂) d.status) := by
    refine (byStatus_perm hknown).trans (List.Perm.trans ?_ ((byStatus_perm hknown).symm.cons card))
    have hmoved : (l₁ ++ card :: l₂).Perm (card :: (l₁ ++ l₂)) := List.perm_middle
    have hmid := hmoved.filter fun t => t.status = d.status
    rwa [← hnew, List.filter_cons, if_pos (decide_eq_true hstatus)] at hmid
  have hrest : ∀ status, status ≠ d.status →
      byStatus new status = byStatus (l₁ ++ l₂) status := by
    intro status hne
    have hgone : (byStatus new status).filter (fun u => u.id ≠ card.id) =
        byStatus (l₁ ++ l₂) status := filter_byStatus hnew hids' hnums'
    rw [← hgone]
    symm
    refine List.filter_eq_self.mpr fun u hu => decide_eq_true fun heq => hne ?_
    obtain ⟨-, hmem, hu⟩ := mem_byStatus.mp hu
    have hsame : u = card := eq_of_id hids' hmem (by rw [hnew]; simp) heq
    rw [← hu, hsame, hstatus]
  rw [hothers] at hindex hrank
  have hinserted := (Lib.insertIdx_perm hindex card).trans hcolumn.symm
  have hlands : d.Lands old new ↔
      byStatus new d.status = (byStatus (l₁ ++ l₂) d.status).insertIdx d.index card := by
    constructor
    · intro h
      have hcards := h d.status
      rw [if_pos rfl, hfiltered, ← hid] at hcards
      have hmapped : (byStatus new d.status).map (·.id) =
          ((byStatus (l₁ ++ l₂) d.status).insertIdx d.index card).map (·.id) :=
        hcards.trans (List.map_insertIdx _ _ _ _).symm
      refine Lib.eq_of_map_eq (fun a ha b hb heq => ?_) hmapped
      have hmem : ∀ u ∈ byStatus new d.status, u ∈ new := fun u hu => (mem_byStatus.mp hu).2.1
      exact eq_of_id hids' (hmem a ha) (hmem b (hinserted.mem_iff.mp hb)) heq
    · intro h status
      split
      · next heq =>
        rw [heq, hfiltered, cards, h, List.map_insertIdx, hid]
        rfl
      · next hne => rw [hfiltered, cards, hrest status hne]; rfl
  have hplaces : byStatus new d.status = (byStatus (l₁ ++ l₂) d.status).insertIdx d.index card ↔
      ((byStatus (l₁ ++ l₂) d.status).insertIdx d.index card).Pairwise
        fun a b => place a < place b := by
    constructor
    · intro h
      rwa [← h]
    · exact fun h => byStatus_eq hknown (hinserted.trans (byStatus_perm hknown)) h
  rw [hlands, hplaces, Lib.pairwise_insertIdx_iff hsorted' hindex,
    between_iff hsorted' (hcard.trans hrank), ← hothers, hnum]
  rfl

/-! ## Drops on a list that is up to date -/

theorem BoardOp.inYears {e : Event} (h : BoardOp e.op) (pf : FileVal) : ShiftInYears pf e := by
  rintro taskIDs days fop c hop
  rw [hop] at h
  cases h

theorem boardOp_dropOp (view : List TaskVal) (activeId overId : String) :
    BoardOp (dropOp view activeId overId) := by
  unfold dropOp
  split
  · exact .read
  · next d hd =>
    cases hp : d.patch with
    | none => exact .read
    | some p => exact .drop hd hp

/-- What a patch of a board leaves of the file. -/
theorem update_board {now : Time} {pf : FileVal} {c : Mutation} {t : TaskVal} {status : String}
    {rank : Rat} (hids : (pf.tasks.map (·.id)).Nodup) (ht : t ∈ pf.tasks)
    (hop : update now t.id { status := some status, rank := some rank } pf = .ok c) :
    ∃ l₁ l₂ card, pf.tasks = l₁ ++ t :: l₂ ∧ (applyFile c.edits pf).tasks = l₁ ++ card :: l₂ ∧
      card.id = t.id ∧ card.num = t.num ∧ card.status = status ∧ card.rank = rank := by
  unfold update at hop
  split at hop
  · cases hop
  · next i hi =>
    obtain ⟨u, hget, hid⟩ := Lib.findIdx_ok hi
    obtain rfl := eq_of_id hids (List.mem_of_getElem? hget) ht (of_decide_eq_true hid)
    rw [hget] at hop
    obtain ⟨⟨⟩, -, hop⟩ := Lib.bind_ok hop
    cases hop
    obtain ⟨hlt, hat⟩ := List.getElem?_eq_some_iff.mp hget
    have hmodify : ∀ f : TaskVal → TaskVal, pf.tasks.modify i f =
        pf.tasks.take i ++ f u :: pf.tasks.drop (i + 1) := by
      intro f
      rw [List.modify_eq_take_cons_drop hlt, hat]
    refine ⟨pf.tasks.take i, pf.tasks.drop (i + 1), _, ?_,
      (congrArg _ (applyFile_onTask i _ pf)).trans (hmodify _), rfl, rfl, rfl, rfl⟩
    rw [← hat, List.getElem_cons_drop, List.take_append_drop]

section Runs

variable {projectID : String} {es : List Event} {s : State} {env : Env} {pf : FileVal}
  {activeId overId : String} {d : Drop}

/-- **A drop on a list that is up to date lands where it was dropped**, whatever the board's clients
did before, exactly if it is not between two cards of one rank that its number is not between. -/
theorem drop_lands_iff
    (hrun : Lib.Run (State.Happens projectID) (fun _ e => BoardOp e.op) .init es s)
    (hload : s.view.loaded env projectID = .ok pf) (hsaves : (env.dirFails || env.saveFails) = false)
    (hover : Droppable overId) (hdrop : handleDragEnd pf.tasks activeId overId = some d) :
    ∃ new, (d.settle projectID env s).view.loaded env projectID = .ok new ∧
      (d.Lands pf.tasks new.tasks ↔ ¬ d.Tied pf.tasks) := by
  have hany : Lib.Run (State.Happens projectID)
      (fun s e => Admits projectID (fun _ _ => True) s.view e) .init es s :=
    hrun.mono fun s e _ pf _ => trivial
  have hdeps := tasksOk_rule.loaded (tasksOk_rule.holds hany) hload
  have hfields := fieldsOk_rule.loaded (fieldsOk_rule.holds
    (hrun.mono fun s e he pf _ => he.inYears pf)) hload
  have hnums : (pf.tasks.map (·.num)).Nodup := by
    refine List.Nodup.of_map taskId ?_
    rw [List.map_map]
    have hsame : pf.tasks.map (taskId ∘ fun t => t.num) = pf.tasks.map (·.id) :=
      List.map_congr_left fun t ht => (hdeps.numbered t ht).1.symm
    rw [hsame]
    exact hdeps.ids
  have hknown : ∀ t ∈ pf.tasks, t.status ∈ Statuses := fun t ht =>
    (fieldsOk_iff.mp (hfields t ht)).1.status
  obtain ⟨htask, hcolumn, hindex, hrank⟩ := handleDragEnd_spec hdrop
  have hstatus := status_known hknown hover hcolumn
  unfold Drop.settle Drop.patch
  split
  · next hnone =>
    split at hnone
    · next hstay =>
      obtain ⟨l₁, l₂, hsplit⟩ := List.append_of_mem htask
      exact ⟨pf, hload, Drop.lands_iff hsplit hsplit hdeps.ids hnums rfl rfl hstay.1.symm
        hstay.2.symm hstatus hindex hrank⟩
    · cases hnone
  · next p hp =>
    split at hp
    · cases hp
    · cases hp
      have hplain : Patch.Plain { status := some d.status, rank := some d.rank } := by
        refine ⟨?_, ?_, ?_, ?_, ?_, ?_, ?_, ?_, ⟨rfl, rfl, rfl⟩, rfl⟩
        case refine_3 => rintro x ⟨⟩; exact hstatus
        all_goals exact fun x hx => (nomatch hx)
      obtain ⟨c, hc⟩ := update_accepted env.now hfields htask hplain
      obtain ⟨l₁, l₂, card, hold, hnew, hid, hnum, hcard⟩ := update_board hdeps.ids htask hc
      have hok := (State.run_refines hany State.init_ok).1
      obtain ⟨-, hview, -⟩ := State.exec_refines hok env projectID
        (.update d.task.id { status := some d.status, rank := some d.rank })
      rw [hview, Project.exec_accepted hload rfl hsaves hc]
      exact ⟨_, rfl, Drop.lands_iff hold hnew hdeps.ids hnums hid hnum hcard.1 hcard.2 hstatus
        hindex hrank⟩

end Runs

/-! ## A board with two clients -/

/-- Three tasks to do. -/
def opened : State :=
  after "p" (calls [.create "h" "P" { title := "a" } someone, .create "h" "P" { title := "b" } someone,
    .create "h" "P" { title := "c" } someone]) .init

/-- What a client reads. -/
def tasksOf (s : State) : List TaskVal := (s.view.file.map (·.tasks)).getD []

/-- One client, and then another with the list from before that, puts a task into the empty column
of those done. -/
def crowded : State :=
  after "p" (calls [dropOp (tasksOf opened) "t2" "col:done", dropOp (tasksOf opened) "t3" "col:done"])
    opened

theorem run_opened :
    ∃ es, Lib.Run (State.Happens "p") (fun _ e => BoardOp e.op) .init es opened := by
  refine ⟨_, Lib.Run.foldl _ (fun s e he => ?_) State.init⟩
  obtain ⟨op, hop, rfl⟩ := List.mem_map.mp he
  simp only [List.mem_cons, List.not_mem_nil, or_false] at hop
  rcases hop with rfl | rfl | rfl <;> exact .create ..

theorem run_crowded :
    ∃ es, Lib.Run (State.Happens "p") (fun _ e => BoardOp e.op) .init es crowded := by
  obtain ⟨es, hrun⟩ := run_opened
  refine ⟨_, hrun.append (Lib.Run.foldl _ (fun s e he => ?_) opened)⟩
  obtain ⟨op, hop, rfl⟩ := List.mem_map.mp he
  simp only [List.mem_cons, List.not_mem_nil, or_false] at hop
  rcases hop with rfl | rfl
  · exact boardOp_dropOp (tasksOf opened) "t2" "col:done"
  · exact boardOp_dropOp (tasksOf opened) "t3" "col:done"

theorem exists_ok {x : Except Err FileVal} {p : FileVal → Bool} (h : x.toOption.any p = true) :
    ∃ pf, x = .ok pf ∧ p pf = true := by
  cases x with
  | error e => cases h
  | ok pf => exact ⟨pf, rfl, h⟩

/-- The last task dropped on the first. -/
theorem drop_lands_iff_first :
    ∃ pf d new, opened.view.loaded { now := 2 } "p" = .ok pf ∧
      handleDragEnd pf.tasks "t3" "t1" = some d ∧
      (d.settle "p" { now := 2 } opened).view.loaded { now := 2 } "p" = .ok new ∧
      d.index = 0 ∧ d.Lands pf.tasks new.tasks := by
  obtain ⟨es, hrun⟩ := run_opened
  have hcheck : (opened.view.loaded { now := 2 } "p").toOption.any (fun pf =>
      (handleDragEnd pf.tasks "t3" "t1").any fun d => decide (d.index = 0 ∧ ¬ d.Tied pf.tasks)) =
        true := by decide +kernel
  obtain ⟨pf, hload, hcheck⟩ := exists_ok hcheck
  obtain ⟨d, hdrop, hd⟩ := (Option.any_eq_true _ _).mp hcheck
  obtain ⟨hindex, htied⟩ := of_decide_eq_true hd
  obtain ⟨new, hnew, hlands⟩ := drop_lands_iff hrun hload rfl
    (fun h => absurd h (by decide +kernel)) hdrop
  exact ⟨pf, d, new, hload, hdrop, hnew, hindex, hlands.mpr htied⟩

/-- Dropped between the two, the first task goes before both. -/
theorem drop_between_equals :
    ∃ es pf d new, Lib.Run (State.Happens "p") (fun _ e => BoardOp e.op) .init es crowded ∧
      crowded.view.loaded { now := 2 } "p" = .ok pf ∧
      handleDragEnd pf.tasks "t1" "t3" = some d ∧
      (d.settle "p" { now := 2 } crowded).view.loaded { now := 2 } "p" = .ok new ∧
      d.index = 1 ∧ cards pf.tasks "done" = ["t2", "t3"] ∧
      cards new.tasks "done" = ["t1", "t2", "t3"] ∧ ¬ d.Lands pf.tasks new.tasks := by
  obtain ⟨es, hrun⟩ := run_crowded
  have hcheck : (crowded.view.loaded { now := 2 } "p").toOption.any (fun pf =>
      (handleDragEnd pf.tasks "t1" "t3").any fun d =>
        ((d.settle "p" { now := 2 } crowded).view.loaded { now := 2 } "p").toOption.any fun new =>
          decide (d.status = "done" ∧ d.task.id = "t1" ∧ d.index = 1 ∧
            cards pf.tasks "done" = ["t2", "t3"] ∧ cards new.tasks "done" = ["t1", "t2", "t3"])) =
        true := by decide +kernel
  obtain ⟨pf, hload, hcheck⟩ := exists_ok hcheck
  obtain ⟨d, hdrop, hcheck⟩ := (Option.any_eq_true _ _).mp hcheck
  obtain ⟨new, hnew, hcheck⟩ := exists_ok hcheck
  obtain ⟨hstatus, htask, hindex, hold, hcards⟩ := of_decide_eq_true hcheck
  refine ⟨es, pf, d, new, hrun, hload, hdrop, hnew, hindex, hold, hcards, fun hlands => ?_⟩
  have hdone := hlands "done"
  rw [if_pos hstatus.symm, hold, hcards, htask, hindex] at hdone
  revert hdone
  decide

end Tasks
