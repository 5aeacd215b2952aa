import Mathlib.Data.List.Infix

/-!
# The navigation state of the web app

The reducer of `state/nav.tsx`: which project is current, and which board and channel are selected
in it. Board and channel ids are small numbers of a project's own, so one that outlives a change
of project selects another record.

- `held_reducer` is what one action does: it selects, or keeps what was selected in the same project.
- `selection_of_project` is what a run does: what is selected was selected in the project that is
  current, and the project has been the same since.
-/

namespace FusionLocalServer.Nav

/-- What the rail shows. -/
inductive AppKind where
  | browser
  | tasks
  | production
deriving DecidableEq

/-- A hub, a project, a folder or a document. -/
structure Item where
  id : String
  name : String
  kind : String
  altId : Option String := none
  isContainer : Bool
deriving DecidableEq

structure NavState where
  app : AppKind := .browser
  hubId : Option String := none
  hubName : Option String := none
  project : Option Item := none
  folderStack : List Item := []
  selected : Option Item := none
  /-- The tab of a document's details. -/
  selectedTab : Option String := none
  /-- The tab of a project's panel. -/
  projectTab : Option String := none
  boardId : Option String := none
  channelId : Option String := none
deriving DecidableEq

def initialState : NavState := {}

/-- What a jump into a project's app selects there. -/
structure ProjectAppSelection where
  boardId : Option String := none
  channelId : Option String := none

inductive Action where
  | hydrate (state : NavState)
  | patchProject (project : Item)
  | setApp (app : AppKind)
  | selectHub (id name : String)
  | selectProject (project : Item)
  | enterFolder (folder : Item)
  | selectItem (item : Item)
  | clearProject
  | gotoProjectRoot
  | gotoFolder (index : Int)
  | navigate (project : Item) (folderStack : List Item) (selected : Option Item)
      (tab : Option String)
  | openProjectApp (project : Item) (tab : String) (sel : ProjectAppSelection)
  | setProjectTab (tab : String)
  | selectBoard (id : Option String)
  | selectChannel (id : Option String)

/-- `xs.slice(0, end)`, where a negative end counts from behind. -/
def slice0 (xs : List Item) (stop : Int) : List Item :=
  xs.take (if stop < 0 then xs.length + stop else stop).toNat

/-- `state.project?.id`. -/
def NavState.projectId (s : NavState) : Option String := s.project.map (·.id)

def reducer (s : NavState) : Action → NavState
  | .hydrate state => state
  | .patchProject project => if s.projectId = some project.id then { s with project := some project } else s
  | .setApp app => if s.app = app then s else { s with app }
  | .selectHub id name =>
    if s.hubId = some id then s
    else { initialState with app := s.app, hubId := some id, hubName := some name }
  | .selectProject project =>
    { s with project := some project, folderStack := [], selected := none, selectedTab := none
             boardId := none, channelId := none }
  | .enterFolder folder =>
    { s with folderStack := s.folderStack ++ [folder], selected := none, selectedTab := none }
  | .selectItem item => { s with selected := some item, selectedTab := none }
  | .clearProject =>
    { s with project := none, folderStack := [], selected := none, selectedTab := none
             boardId := none, channelId := none }
  | .gotoProjectRoot => { s with folderStack := [], selected := none, selectedTab := none }
  | .gotoFolder index =>
    { s with folderStack := slice0 s.folderStack (index + 1), selected := none, selectedTab := none }
  | .navigate project folderStack selected tab =>
    let crossed : Bool := s.projectId ≠ some project.id
    { s with app := .browser, project := some project, folderStack, selected, selectedTab := tab
             boardId := if crossed then none else s.boardId
             channelId := if crossed then none else s.channelId }
  | .openProjectApp project tab sel =>
    { s with app := .browser, project := some project, folderStack := [], selected := none
             selectedTab := none, projectTab := some tab, boardId := sel.boardId
             channelId := sel.channelId }
  | .setProjectTab tab => if s.projectTab = some tab then s else { s with projectTab := some tab }
  | .selectBoard id => if s.boardId = id then s else { s with boardId := id }
  | .selectChannel id => if s.channelId = id then s else { s with channelId := id }

/-- The state after the actions. -/
def after (actions : List Action) : NavState := actions.foldl reducer initialState

/-! ## What is selected in a project -/

/-- What of a project's records is selected. -/
inductive Selection where
  | board
  | channel

/-- The id that is selected. -/
def NavState.held (s : NavState) : Selection → Option String
  | .board => s.boardId
  | .channel => s.channelId

/-- The id that an action selects. -/
def Action.sets : Action → Selection → Option String
  | .selectBoard id, .board => id
  | .selectChannel id, .channel => id
  | .openProjectApp _ _ sel, .board => sel.boardId
  | .openProjectApp _ _ sel, .channel => sel.channelId
  | .hydrate state, k => state.held k
  | _, _ => none

variable {s : NavState} {a : Action} {k : Selection} {id : String}

/-- What is selected after an action was selected by it, or before it in the same project. -/
theorem held_reducer (h : (reducer s a).held k = some id) :
    a.sets k = some id ∨ (s.held k = some id ∧ (reducer s a).projectId = s.projectId) := by
  cases a with
  | hydrate state => exact .inl h
  | patchProject project =>
    by_cases hsame : s.projectId = some project.id
    · have hnext : reducer s (.patchProject project) = { s with project := some project } :=
        if_pos hsame
      rw [hnext] at h ⊢
      cases k <;> exact .inr ⟨h, hsame.symm⟩
    · have hnext : reducer s (.patchProject project) = s := if_neg hsame
      rw [hnext] at h ⊢
      exact .inr ⟨h, rfl⟩
  | setApp | setProjectTab =>
    simp only [reducer] at h ⊢
    split at h
    · next hsame => exact .inr ⟨h, by rw [if_pos hsame]⟩
    · next hother =>
      rw [if_neg hother]
      cases k <;> exact .inr ⟨h, rfl⟩
  | selectHub id name =>
    simp only [reducer] at h ⊢
    split at h
    · next hsame => exact .inr ⟨h, by rw [if_pos hsame]⟩
    · cases k <;> cases h
  | selectProject | clearProject => cases k <;> cases h
  | enterFolder | selectItem | gotoProjectRoot | gotoFolder =>
    cases k <;> exact .inr ⟨h, rfl⟩
  | navigate project folderStack selected tab =>
    -- crossing into another project drops both
    by_cases hsame : s.projectId = some project.id
    · have hid : (reducer s (.navigate project folderStack selected tab)).projectId =
          s.projectId := hsame.symm
      have hheld : (reducer s (.navigate project folderStack selected tab)).held k = s.held k := by
        cases k <;> simp [reducer, hsame, NavState.held]
      exact .inr ⟨hheld ▸ h, hid⟩
    · have hheld : (reducer s (.navigate project folderStack selected tab)).held k = none := by
        cases k <;> simp [reducer, hsame, NavState.held]
      cases hheld ▸ h
  | openProjectApp project tab sel => cases k <;> exact .inl h
  | selectBoard id' =>
    simp only [reducer] at h ⊢
    split at h
    · next hsame => exact .inr ⟨h, by rw [if_pos hsame]⟩
    · next hother =>
      rw [if_neg hother]
      cases k
      · exact .inl h
      · exact .inr ⟨h, rfl⟩
  | selectChannel id' =>
    simp only [reducer] at h ⊢
    split at h
    · next hsame => exact .inr ⟨h, by rw [if_pos hsame]⟩
    · next hother =>
      rw [if_neg hother]
      cases k
      · exact .inr ⟨h, rfl⟩
      · exact .inl h

/-! ## Runs -/

theorem after_snoc (actions : List Action) (a : Action) :
    after (actions ++ [a]) = reducer (after actions) a := by simp [after]

/-- The id was selected by an action of the run, after which the project has been what it is. -/
def Chosen (k : Selection) (id : String) (actions : List Action) : Prop :=
  ∃ before a later, actions = before ++ a :: later ∧ a.sets k = some id ∧
    ∀ mid, mid <+: later → (after (before ++ a :: mid)).projectId = (after actions).projectId

/-- **A selection is of the project that is current**: it was selected by a select, open or hydrate
action, and from then on the project has not changed. So where actions select ids that the project
they leave current has issued, what is selected was issued by the current project. -/
theorem selection_of_project (actions : List Action) (k : Selection) (id : String)
    (h : (after actions).held k = some id) :
    Chosen k id actions ∧
      ∀ Issued : Option String → String → Prop,
        (∀ before a later, actions = before ++ a :: later → ∀ chosen, a.sets k = some chosen →
          Issued (after (before ++ [a])).projectId chosen) →
        Issued (after actions).projectId id := by
  have hchosen : Chosen k id actions := by
    induction actions using List.reverseRecOn with
    | nil => cases k <;> cases h
    | append_singleton actions a ih =>
      rw [after_snoc] at h
      rcases held_reducer h with hsets | ⟨hheld, hproject⟩
      · refine ⟨actions, a, [], rfl, hsets, fun mid hmid => ?_⟩
        rw [List.prefix_nil.mp hmid]
      · obtain ⟨before, b, later, rfl, hsets, hsince⟩ := ih hheld
        refine ⟨before, b, later ++ [a], by simp, hsets, fun mid hmid => ?_⟩
        rw [after_snoc, hproject]
        rcases List.prefix_concat_iff.mp hmid with rfl | hmid
        · rw [← List.cons_append, ← List.append_assoc, after_snoc, hproject]
        · exact hsince mid hmid
  refine ⟨hchosen, fun Issued hissued => ?_⟩
  obtain ⟨before, a, later, hsplit, hsets, hsince⟩ := hchosen
  rw [← hsince [] List.nil_prefix]
  exact hissued before a later hsplit id hsets

/-- A board that is selected in a project, with steps into a folder and a document in between. -/
def boardKept : List Action :=
  [.selectProject { id := "p1", name := "Gears", kind := "project", isContainer := true },
    .selectBoard (some "w1"),
    .enterFolder { id := "f1", name := "Parts", kind := "folder", isContainer := true },
    .selectItem { id := "i1", name := "Cog", kind := "design", isContainer := false },
    .gotoProjectRoot]

theorem selection_of_project_boardKept :
    (after boardKept).held .board = some "w1" ∧ Chosen .board "w1" boardKept :=
  ⟨rfl, (selection_of_project boardKept .board "w1" rfl).1⟩

end FusionLocalServer.Nav
