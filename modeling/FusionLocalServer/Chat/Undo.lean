import FusionLocalServer.Chat.Cursors

/-!
# Calls that fail

The calls that change what a project has in memory beside its messages: its channels and their
counter, and the cursors. Each writes into memory first, checks and saves, and takes its writes
back by hand where that fails. Two writes stay: the root channel that `CreateChannel` makes
ahead of its own, and a new name, where `UpdateChannel` then finds the topic to be too long.
-/

namespace FusionLocalServer.Chat

open Lib Std Storage

/-- `projectState`, and what there is of it on disk. -/
structure ProjectState where
  project : Project := {}
  cursors : Cursors := {}

inductive MetaCall where
  | createChannel (name topic createdBy : String) (isPrivate : Bool) (memberIDs : List String)
  | updateChannel (id : String) (name topic : Option String)
  | archiveChannel (id : String)
  | addChannelMember (id userID addedBy : String)
  | removeChannelMember (id userID : String)
  | setReadCursor (chEnv : Env) (userKey id : String) (seq : Int)

namespace ProjectState

/-- The cursors a call finds: those in memory are there as long as the project is. -/
def held (s : ProjectState) : Cursors :=
  if s.project.pm.isSome then s.cursors else { s.cursors with memory := none }

/-- A call that does not touch the cursors. -/
def onProject {α : Type} (s : ProjectState) (go : Project → Project × Except Err α) :
    ProjectState × Except Err Unit :=
  let answer := go s.project
  ({ project := answer.1, cursors := s.held }, answer.2.map fun _ => ())

/-- `SetReadCursor`. -/
def setReadCursor (s : ProjectState) (env : MetaEnv) (projectID : String) (chEnv : Env)
    (userKey id : String) (seq : Int) : ProjectState × Except Err (Unread × Bool) :=
  match checkRead userKey seq with
  | some e => (s, .error e)
  | none =>
    match s.project.project env projectID with
    | (p, .error e) => ({ project := p, cursors := s.held }, .error e)
    | (p, .ok pm) =>
      match findChannel pm id with
      | none => ({ project := p, cursors := s.held }, .error (channelMissing id))
      | some c =>
        match (p.channelOf c).channelState chEnv with
        | (ch, .error e) => ({ project := p.withChannel id ch, cursors := s.held }, .error e)
        | (ch, .ok cs) =>
          let answer := s.held.setReadCursor env cs userKey id seq
          ({ project := p.withChannel id ch, cursors := answer.1 }, answer.2)

def call (s : ProjectState) (env : MetaEnv) (projectID : String) :
    MetaCall → ProjectState × Except Err Unit
  | .createChannel name topic createdBy isPrivate memberIDs =>
    s.onProject fun p => p.createChannel env projectID name topic createdBy isPrivate memberIDs
  | .updateChannel id name topic =>
    s.onProject fun p => p.onChannel env projectID id (Project.updateChannel env name topic)
  | .archiveChannel id =>
    s.onProject fun p => p.onChannel env projectID id (Project.archiveChannel env)
  | .addChannelMember id userID addedBy =>
    s.onProject fun p => p.onChannel env projectID id (Project.addChannelMember env userID addedBy)
  | .removeChannelMember id userID =>
    s.onProject fun p => p.onChannel env projectID id (Project.removeChannelMember userID)
  | .setReadCursor chEnv userKey id seq =>
    let answer := s.setReadCursor env projectID chEnv userKey id seq
    (answer.1, answer.2.map fun _ => ())

end ProjectState

/-! ## What a failed call leaves -/

/-- All but the stamp of the last save. -/
def SameMeta (pm pm' : ProjectMeta) : Prop := { pm' with schema := pm.schema } = pm

def rootChannel (now : Time) : ChannelDef :=
  { id := "", name := RootChannelName, isRoot := true, createdAt := now }

/-- What a call finds in memory, or loads, and what it leaves when it fails. -/
inductive Left (env : MetaEnv) (pm : ProjectMeta) : MetaCall → ProjectMeta → Prop
  | same {call : MetaCall} {pm' : ProjectMeta} : SameMeta pm pm' → Left env pm call pm'
  /-- The missing root channel was made. -/
  | root {name topic createdBy : String} {isPrivate : Bool} {memberIDs : List String}
      {pm' : ProjectMeta} : (∀ c ∈ pm.channels, c.isRoot = false) →
      SameMeta (Project.addChannel pm (rootChannel env.now)) pm' →
      Left env pm (.createChannel name topic createdBy isPrivate memberIDs) pm'

/-- A call that takes a new name, and then finds the topic to be too long. -/
def RenameStays (env : MetaEnv) (pm : ProjectMeta) : MetaCall → Prop
  | .updateChannel id (some name) (some topic) => ∃ c, findChannel pm id = some c ∧
      Project.checkRename env pm c (trimSpace name) = none ∧ checkTopic (trimSpace topic) ≠ none
  | _ => False

/-- Nothing in memory is other than before the call, or than it was loaded by it. -/
structure Undone (env : MetaEnv) (projectID : String) (call : MetaCall)
    (s s' : ProjectState) : Prop where
  pm : (s.project.pm = none ∧ s'.project.pm = none) ∨ ∃ pm pm',
    (s.project.project env projectID).2 = .ok pm ∧ s'.project.pm = some pm' ∧ Left env pm call pm'
  cursors : s'.held.memory = s.held.memory ∨ ∃ cf cf', (s.held.ensure env).2 = .ok cf ∧
    s'.held.memory = some cf' ∧
    ∀ userKey id, cursorOf cf'.cursors userKey id = cursorOf cf.cursors userKey id

theorem SameMeta.refl (pm : ProjectMeta) : SameMeta pm pm := rfl

/-! ## The channels -/

namespace Project

variable {p : Project} {env : MetaEnv} {projectID : String}

/-- A project that was loaded stays; one that cannot be loaded was not. -/
theorem project_pm (p : Project) (env : MetaEnv) (projectID : String) :
    (∀ e, (p.project env projectID).2 = .error e →
      p.pm = none ∧ (p.project env projectID).1.pm = none) ∧
    ∀ pm, (p.project env projectID).2 = .ok pm → (p.project env projectID).1.pm = some pm := by
  unfold Project.project
  cases hpm : p.pm with
  | some pm =>
    refine ⟨fun e h => (nomatch h), fun pm' h => ?_⟩
    cases h
    exact hpm
  | none =>
    dsimp only
    cases loadMeta env projectID p.disk with
    | mk disk result =>
      cases result with
      | error e => exact ⟨fun _ _ => ⟨rfl, rfl⟩, fun _ h => (nomatch h)⟩
      | ok pm =>
        dsimp only
        split
        · exact ⟨fun _ _ => ⟨rfl, rfl⟩, fun _ h => (nomatch h)⟩
        · refine ⟨fun e h => (nomatch h), fun pm' h => ?_⟩
          cases h
          rfl

/-- A failed save puts back what was there. -/
theorem commit_error {α : Type} {p p' : Project} {old new : ProjectMeta} {a : α} {e : Err}
    (h : p.commit env old new a = (p', .error e)) : ∃ pm', p'.pm = some pm' ∧ SameMeta old pm' := by
  unfold commit at h
  split at h
  · cases h
    exact ⟨_, rfl, rfl⟩
  · split at h
    · cases h
      exact ⟨_, rfl, rfl⟩
    · cases h

theorem ensureRoot_eq (p : Project) (env : MetaEnv) (pm : ProjectMeta) :
    p.ensureRoot env pm = if pm.channels.any (·.isRoot) then (p, .ok pm) else
      let new := addChannel pm (rootChannel env.now)
      match p.commit env pm new () with
      | (p, .error e) => (p, .error e)
      | (p, .ok ()) => (p, .ok { new with schema := new.schema.touch env.toEnv }) := rfl

/-- The root channel is there, or it is made, or it could not be saved. -/
theorem ensureRoot_left (env : MetaEnv) (pm : ProjectMeta) (hpm : p.pm = some pm) :
    (∀ p' e, p.ensureRoot env pm = (p', .error e) → ∃ pm', p'.pm = some pm' ∧ SameMeta pm pm') ∧
    ∀ p' pm', p.ensureRoot env pm = (p', .ok pm') → p'.pm = some pm' ∧
      (pm' = pm ∨ ((∀ c ∈ pm.channels, c.isRoot = false) ∧
        SameMeta (addChannel pm (rootChannel env.now)) pm')) := by
  rw [ensureRoot_eq]
  split
  · refine ⟨fun p' e h => (nomatch (Prod.mk.inj h).2), fun p' pm' h => ?_⟩
    cases h
    exact ⟨hpm, .inl rfl⟩
  · next hroot =>
    have hnone : ∀ c ∈ pm.channels, c.isRoot = false := by
      simpa using hroot
    dsimp only
    cases hcommit : p.commit env pm (addChannel pm (rootChannel env.now)) () with
    | mk p₁ result =>
      cases result with
      | error e =>
        refine ⟨fun p' e' h => ?_, fun _ _ h => (nomatch (Prod.mk.inj h).2)⟩
        cases h
        exact commit_error hcommit
      | ok u =>
        refine ⟨fun _ _ h => (nomatch (Prod.mk.inj h).2), fun p' pm' h => ?_⟩
        cases h
        refine ⟨?_, .inr ⟨hnone, rfl⟩⟩
        unfold commit at hcommit
        split at hcommit
        · cases hcommit
        · split at hcommit
          · cases hcommit
          · cases hcommit
            rfl

/-- What a failed call leaves of the channels. -/
def LeftBy (p : Project) (env : MetaEnv) (projectID : String) (call : MetaCall) (p' : Project) :
    Prop :=
  (p.pm = none ∧ p'.pm = none) ∨ ∃ pm pm', (p.project env projectID).2 = .ok pm ∧
    p'.pm = some pm' ∧ Left env pm call pm'

/-- A call that fails ahead of loading the project. -/
theorem LeftBy.refused (p : Project) (env : MetaEnv) (projectID : String) (call : MetaCall) :
    LeftBy p env projectID call p := by
  cases hpm : p.pm with
  | none => exact .inl ⟨hpm, hpm⟩
  | some pm =>
    refine .inr ⟨pm, pm, ?_, hpm, .same (.refl pm)⟩
    unfold Project.project
    rw [hpm]

theorem onMeta_left {α : Type} {go : Project → ProjectMeta → Project × Except Err α}
    {call : MetaCall}
    (hgo : ∀ p₁ pm e, p₁.pm = some pm → (p.project env projectID).2 = .ok pm →
      (go p₁ pm).2 = .error e → ∃ pm', (go p₁ pm).1.pm = some pm' ∧ Left env pm call pm')
    {e : Err} (h : (p.onMeta env projectID go).2 = .error e) :
    LeftBy p env projectID call (p.onMeta env projectID go).1 := by
  obtain ⟨hfail, hload⟩ := project_pm p env projectID
  unfold onMeta at h ⊢
  cases hproject : p.project env projectID with
  | mk p₁ result =>
    rw [hproject] at hfail hload h
    cases result with
    | error e => exact .inl (hfail e rfl)
    | ok pm =>
      obtain ⟨pm', hpm', hleft⟩ := hgo p₁ pm e (hload pm rfl) (congrArg Prod.snd hproject) h
      exact .inr ⟨pm, pm', congrArg Prod.snd hproject, hpm', hleft⟩

theorem createChannel_left {name topic createdBy : String} {isPrivate : Bool}
    {memberIDs : List String} {e : Err}
    (h : (p.createChannel env projectID name topic createdBy isPrivate memberIDs).2 = .error e) :
    LeftBy p env projectID (.createChannel name topic createdBy isPrivate memberIDs)
      (p.createChannel env projectID name topic createdBy isPrivate memberIDs).1 := by
  unfold createChannel at h ⊢
  dsimp only at h ⊢
  cases hcheck : (validateName (trimSpace name)).or (checkTopic (trimSpace topic)) with
  | some e => exact .refused ..
  | none =>
    rw [hcheck] at h
    dsimp only at h ⊢
    refine onMeta_left (fun p₁ pm e hpm _ he => ?_) h
    obtain ⟨hfail, hmade⟩ := ensureRoot_left env pm hpm
    cases hroot : p₁.ensureRoot env pm with
    | mk p₂ result =>
      rw [hroot] at he
      cases result with
      | error e =>
        obtain ⟨pm', hpm', hsame⟩ := hfail p₂ e hroot
        exact ⟨pm', hpm', .same hsame⟩
      | ok pm₂ =>
        obtain ⟨hpm₂, hleft⟩ := hmade p₂ pm₂ hroot
        have hafter : ∀ pm', SameMeta pm₂ pm' →
            Left env pm (.createChannel name topic createdBy isPrivate memberIDs) pm' := by
          intro pm' hsame
          rcases hleft with rfl | ⟨hnone, hadded⟩
          · exact .same hsame
          · refine .root hnone ?_
            unfold SameMeta at hsame hadded ⊢
            rw [← hadded, ← hsame]
        dsimp only at he ⊢
        split
        · exact ⟨pm₂, hpm₂, hafter pm₂ rfl⟩
        · next hfree =>
          rw [if_neg hfree] at he
          obtain ⟨pm', hpm', hsame⟩ := commit_error (Prod.ext rfl he)
          exact ⟨pm', hpm', hafter pm' hsame⟩

/-- A call on one channel leaves it, if what it wrote before it failed leaves it. -/
theorem onChannel_left {id : String} {op : ChannelOp} {call : MetaCall} {e : Err}
    (hop : ∀ pm c e f, (p.project env projectID).2 = .ok pm → findChannel pm id = some c →
      op pm c = .error (e, f) → ∀ c, f c = c)
    (h : (p.onChannel env projectID id op).2 = .error e) :
    LeftBy p env projectID call (p.onChannel env projectID id op).1 := by
  refine onMeta_left (fun p₁ pm e hpm hproject he => ?_) h
  cases hfind : findChannel pm id with
  | none => exact ⟨pm, hpm, .same (.refl pm)⟩
  | some c =>
    rw [hfind] at he
    dsimp only at he ⊢
    cases hresult : op pm c with
    | error failed =>
      have hf := hop pm c failed.1 failed.2 hproject hfind hresult
      refine ⟨pm.onChannel id failed.2, rfl, .same ?_⟩
      have hmodify : ∀ (cs : List ChannelDef) i, cs.modify i failed.2 = cs := fun cs i => by
        rw [show failed.2 = _ from funext hf]
        exact List.modify_id i cs
      show ({ pm with channels := pm.channels.modify _ failed.2 } : ProjectMeta) = pm
      rw [hmodify]
    | ok change =>
      rw [hresult] at he
      cases change with
      | none => cases he
      | some f =>
        obtain ⟨pm', hpm', hsame⟩ := commit_error (Prod.ext rfl he)
        exact ⟨pm', hpm', .same hsame⟩

/-- A refusal with a name that was not changed. -/
theorem updateChannel_refuses {name topic : Option String} {id : String} {pm : ProjectMeta}
    {c : ChannelDef} (hfind : findChannel pm id = some c)
    (hname : ¬ RenameStays env pm (.updateChannel id name topic)) {e : Err}
    {f : ChannelDef → ChannelDef} (h : updateChannel env name topic pm c = .error (e, f)) :
    ∀ c, f c = c := by
  unfold updateChannel at h
  dsimp only at h
  split at h
  · cases h
    exact fun _ => rfl
  · next hchecked =>
    split at h
    · next e' htopic =>
      cases h
      cases name with
      | none => exact fun _ => rfl
      | some name =>
        cases topic with
        | none => cases htopic
        | some topic =>
          rw [Option.bind_some] at hchecked htopic
          exact absurd ⟨c, hfind, hchecked, htopic ▸ Option.some_ne_none _⟩ hname
    · cases h

theorem archiveChannel_refuses {pm : ProjectMeta} {c : ChannelDef} {e : Err}
    {f : ChannelDef → ChannelDef} (h : archiveChannel env pm c = .error (e, f)) : ∀ c, f c = c := by
  unfold archiveChannel at h
  split at h
  · cases h
    exact fun _ => rfl
  · cases h

/-- The members of a public channel cannot be changed, and the others' are. -/
theorem members_refuse {c : ChannelDef} {change : Option (ChannelDef → ChannelDef)} {e : Err}
    {f : ChannelDef → ChannelDef}
    (h : (checkPrivate c >>= fun _ => pure change) = Except.error (e, f)) : ∀ c, f c = c := by
  unfold checkPrivate at h
  split at h
  · cases h
  · cases h
    exact fun _ => rfl

end Project

/-! ## The cursors -/

/-- A move that fails leaves the cursors as they were, or as they were loaded for it. -/
theorem Cursors.setReadCursor_undone {c : Cursors} {env : MetaEnv} {cs : ChannelState}
    {userKey id : String} {seq : Int} {e : Err}
    (h : (c.setReadCursor env cs userKey id seq).2 = .error e) :
    (c.setReadCursor env cs userKey id seq).1.memory = c.memory ∨
      ∃ cf cf', (c.ensure env).2 = .ok cf ∧
        (c.setReadCursor env cs userKey id seq).1.memory = some cf' ∧
        ∀ user channel, cursorOf cf'.cursors user channel = cursorOf cf.cursors user channel := by
  have hback : ∀ (t : CursorTable) (seq : Int) (user channel : String),
      cursorOf (setCursor (setCursor t userKey id seq) userKey id (cursorOf t userKey id)) user
        channel = cursorOf t user channel := by
    intro t seq user channel
    rw [cursorOf_setCursor, cursorOf_setCursor]
    split
    · next heq => rw [heq.1, heq.2]
    · rfl
  unfold Cursors.setReadCursor at h ⊢
  cases hensure : c.ensure env with
  | mk c₁ result =>
    rw [hensure] at h
    cases result with
    | error e =>
      refine .inl ?_
      unfold Cursors.ensure at hensure
      split at hensure
      · cases hensure
      · split at hensure
        · cases hensure
          rfl
        · cases hensure
    | ok cf =>
      dsimp only at h ⊢
      generalize (if latestSeq cs < seq then latestSeq cs else seq) = new at h ⊢
      split
      · next hlt =>
        rw [if_pos hlt] at h
        refine .inr ⟨cf, ?_⟩
        unfold Cursors.save at h ⊢
        by_cases hdir : env.dirFails = true
        · rw [if_pos hdir]
          exact ⟨_, rfl, rfl, hback cf.cursors new⟩
        rw [if_neg hdir] at h ⊢
        dsimp only at h ⊢
        by_cases hsave : env.saveFails = true
        · rw [if_pos hsave]
          exact ⟨_, rfl, rfl, hback cf.cursors new⟩
        · rw [if_neg hsave] at h
          cases h
      · next hge =>
        rw [if_neg hge] at h
        cases h

namespace ProjectState

variable {s : ProjectState} {env : MetaEnv} {projectID : String}

theorem onProject_undone {α : Type} {call : MetaCall} {go : Project → Project × Except Err α}
    (hgo : ∀ e, (go s.project).2 = .error e →
      Project.LeftBy s.project env projectID call (go s.project).1)
    {e : Err} (h : (s.onProject go).2 = .error e) :
    Undone env projectID call s (s.onProject go).1 := by
  have herror : ∃ e, (go s.project).2 = .error e := by
    unfold onProject at h
    dsimp only at h
    cases hresult : (go s.project).2 with
    | error e => exact ⟨e, rfl⟩
    | ok a =>
      rw [hresult] at h
      cases h
  obtain ⟨e', he'⟩ := herror
  have hleft := hgo e' he'
  refine ⟨hleft, .inl ?_⟩
  show (ProjectState.held { project := (go s.project).1, cursors := s.held }).memory = s.held.memory
  unfold held
  by_cases hloaded : s.project.pm.isSome = true
  · -- the project stays in memory
    rcases hleft with ⟨hnone, -⟩ | ⟨pm, pm', -, hpm', -⟩
    · rw [hnone] at hloaded
      cases hloaded
    · rw [if_pos hloaded, hpm']
      rfl
  · rw [if_neg hloaded]
    split
    · rfl
    · rfl

theorem held_loaded {pm : ProjectMeta} (h : s.project.pm = some pm) : s.held = s.cursors := by
  unfold held
  rw [h]
  rfl

theorem held_unloaded (h : s.project.pm = none) : s.held.memory = none := by
  unfold held
  rw [h]
  rfl

/-- Loading a channel's messages leaves the rest. -/
theorem setReadCursor_undone {chEnv : Env} {userKey id : String} {seq : Int} {call : MetaCall}
    {e : Err} (h : (s.setReadCursor env projectID chEnv userKey id seq).2 = .error e) :
    Undone env projectID call s (s.setReadCursor env projectID chEnv userKey id seq).1 := by
  obtain ⟨hfail, hload⟩ := Project.project_pm s.project env projectID
  unfold setReadCursor at h ⊢
  cases hcheck : checkRead userKey seq with
  | some e => exact ⟨Project.LeftBy.refused .., .inl rfl⟩
  | none =>
    rw [hcheck] at h
    dsimp only at h ⊢
    cases hproject : s.project.project env projectID with
    | mk p result =>
      rw [hproject] at hfail hload h
      cases result with
      | error e =>
        obtain ⟨hnone, hstill⟩ := hfail e rfl
        exact ⟨.inl ⟨hnone, hstill⟩, .inl ((held_unloaded hstill).trans (held_unloaded hnone).symm)⟩
      | ok pm =>
        have hpm : p.pm = some pm := hload pm rfl
        have hleft : Project.LeftBy s.project env projectID call p :=
          .inr ⟨pm, pm, congrArg Prod.snd hproject, hpm, .same (.refl pm)⟩
        dsimp only at h ⊢
        cases hfind : findChannel pm id with
        | none => exact ⟨hleft, .inl (congrArg Cursors.memory (held_loaded hpm))⟩
        | some c =>
          rw [hfind] at h
          dsimp only at h ⊢
          cases hst : (p.channelOf c).channelState chEnv with
          | mk ch result =>
            rw [hst] at h
            cases result with
            | error e => exact ⟨hleft, .inl (congrArg Cursors.memory (held_loaded hpm))⟩
            | ok cs =>
              refine ⟨hleft, ?_⟩
              rw [held_loaded (s := ⟨p.withChannel id ch, _⟩) hpm]
              exact Cursors.setReadCursor_undone h

/-- **A call that fails leaves what is in memory as it was**, or as it was loaded for the call;
but `CreateChannel` may have made the missing root channel. -/
theorem call_undone {call : MetaCall} {e : Err} (h : (s.call env projectID call).2 = .error e)
    (hname : ∀ pm, (s.project.project env projectID).2 = .ok pm → ¬ RenameStays env pm call) :
    Undone env projectID call s (s.call env projectID call).1 := by
  cases call with
  | createChannel name topic createdBy isPrivate memberIDs =>
    exact onProject_undone (fun e => Project.createChannel_left) h
  | updateChannel id name topic =>
    exact onProject_undone (fun e => Project.onChannel_left fun pm c e f hproject hfind =>
      Project.updateChannel_refuses hfind (hname pm hproject)) h
  | archiveChannel id =>
    exact onProject_undone (fun e => Project.onChannel_left fun pm c e f _ _ =>
      Project.archiveChannel_refuses) h
  | addChannelMember id userID addedBy =>
    exact onProject_undone (fun e => Project.onChannel_left fun pm c e f _ _ =>
      Project.members_refuse) h
  | removeChannelMember id userID =>
    exact onProject_undone (fun e => Project.onChannel_left fun pm c e f _ _ =>
      Project.members_refuse) h
  | setReadCursor chEnv userKey id seq =>
    have herror : ∃ e, (s.setReadCursor env projectID chEnv userKey id seq).2 = .error e := by
      unfold call at h
      dsimp only at h
      cases hresult : (s.setReadCursor env projectID chEnv userKey id seq).2 with
      | error e => exact ⟨e, rfl⟩
      | ok a =>
        rw [hresult] at h
        cases h
    obtain ⟨e', he'⟩ := herror
    exact setReadCursor_undone he'

/-- The project after a look at a channel that it does not have: it is loaded, and has none. -/
def lookedAt : ProjectState :=
  (({} : ProjectState).call { now := 0 } "p"
    (.setReadCursor { now := 0, load := none, write := .full } "u1" "c1" 0)).1

/-- The project with a channel. -/
def planning : ProjectState :=
  (lookedAt.call { now := 0 } "p" (.createChannel "plans" "" "u1" false [])).1

theorem call_undone_rename :
    (planning.call { now := 1, saveFails := true } "p" (.updateChannel "c2" (some "ideas") none)).2 =
        .error (.io "save") ∧
      Undone { now := 1, saveFails := true } "p" (.updateChannel "c2" (some "ideas") none) planning
        (planning.call { now := 1, saveFails := true } "p"
          (.updateChannel "c2" (some "ideas") none)).1 := by
  have herror : (planning.call { now := 1, saveFails := true } "p"
      (.updateChannel "c2" (some "ideas") none)).2 = .error (.io "save") := by decide +kernel
  exact ⟨herror, call_undone herror fun _ _ hstays => hstays⟩

/-- **A call that fails makes the root channel**, and leaves it. -/
theorem root_stays :
    lookedAt.project.pm.map (·.channels) = some [] ∧
      (lookedAt.call { now := 0 } "p" (.createChannel "general" "" "u1" false [])).2 =
        .error (.invalid "a channel named general already exists") ∧
      (lookedAt.call { now := 0 } "p" (.createChannel "general" "" "u1" false [])).1.project.pm.map
        (·.channels.map (·.name)) = some ["general"] := by
  exact ⟨by decide +kernel, by decide +kernel, by decide +kernel⟩

end ProjectState

end FusionLocalServer.Chat
