import FusionLocalServer.Whiteboards.Lifecycle

/-!
# A board is deleted while it is live

`Delete` first drops the room of the board, under the lock of the registry, and then takes the
board off its file, under the lock of the project. In between the registry goes on: a client
that is still on the board can bring its room back.
-/

namespace FusionLocalServer.Whiteboards

open Lib Std

/-- A registry, with the deletions that are under way. -/
structure Deletion extends Lifecycle where
  /-- How many have dropped the room of a board, and not yet come to its file. -/
  pending : RoomKey → Nat := fun _ => 0
  /-- A room was dropped that had something unsaved. -/
  lost : RoomKey → Bool := fun _ => false
  /-- A deletion has come off. -/
  deleted : RoomKey → Bool := fun _ => false

namespace Rooms

variable {rs rs' : Rooms} {told : Told} {key key' : RoomKey} {r : Room}

/-- There is no board, nor a room for it, and the project is in memory. -/
structure Gone (rs : Rooms) (key : RoomKey) : Prop where
  room : rs.rooms[key]? = none
  stored : rs.stored key = none
  file : (rs.st key.1).file.isSome

theorem Gone.setProject (h : Gone rs key) {projectID : String} {p : Project}
    (hp : key.1 = projectID → p.file.isSome ∧ p.stored key.2 = none) :
    Gone (rs.setProject projectID p) key := by
  refine ⟨h.room, ?_, ?_⟩
  all_goals
    by_cases heq : key.1 = projectID
  · unfold Rooms.stored
    rw [heq, setProject_same]
    exact (hp heq).2
  · unfold Rooms.stored
    rw [setProject_other heq]
    exact h.stored
  · rw [heq, setProject_same]
    exact (hp heq).1
  · rw [setProject_other heq]
    exact h.file

theorem Gone.setRoom (h : Gone rs key) (hne : key' ≠ key) : Gone (rs.setRoom key' r) key :=
  ⟨by rw [setRoom_get, if_neg hne]; exact h.room, h.stored, h.file⟩

theorem Gone.drop (h : Gone rs key) (key' : RoomKey) : Gone (rs.drop key') key := by
  refine ⟨?_, h.stored, h.file⟩
  rw [drop_get]
  split
  · rfl
  · exact h.room

theorem Gone.other (h : Gone rs key) (hr : rs.rooms[key']? = some r) : key' ≠ key := by
  rintro rfl
  rw [h.room] at hr
  cases hr

/-- A room that is written is of another board. -/
theorem Gone.saves (h : Gone rs key) (hkept : Kept rs told) (hr : rs.rooms[key']? = some r)
    {env : Env} {doc : List Char} {p : Project} {result : Except Err Board}
    (hsave : (rs.st r.projectID).saveSnapshotAtRev env r.projectID r.boardID doc r.lastBy r.rev =
      (p, result)) : Gone (rs.setProject r.projectID p) key := by
  obtain ⟨hproject, hboard⟩ := hkept.keyed key' r hr
  have hne := h.other hr
  rw [hproject, hboard] at hsave
  rw [hproject]
  refine h.setProject fun heq => ?_
  obtain ⟨pf, hpf⟩ := Option.isSome_iff_exists.mp h.file
  rw [heq] at hpf
  have hsaves := Project.saveSnapshotAtRev_saves (hkept.agrees key'.1) hpf env key'.1 key'.2 doc
    r.lastBy r.rev
  rw [hsave] at hsaves
  have hid : key.2 ≠ key'.2 := fun hid => hne (Prod.ext heq.symm hid.symm)
  refine ⟨hsaves.file, (hsaves.other key.2 hid).trans ?_⟩
  rw [← heq]
  exact h.stored

/-- No move brings a board back. -/
theorem Gone.move (h : Gone rs key) (hkept : Kept rs told) (hmove : Move rs rs') : Gone rs' key := by
  have hread : ∀ {key' : RoomKey} {env : Env} {p : Project} {result},
      (rs.st key'.1).document env key'.1 key'.2 = (p, result) → Gone (rs.setProject key'.1 p) key := by
    intro key' env p result hread
    refine h.setProject fun heq => ?_
    obtain ⟨pf, hpf⟩ := Option.isSome_iff_exists.mp h.file
    rw [heq] at hpf
    obtain ⟨hproject, -⟩ := (hkept.agrees key'.1).document env key'.1 key'.2
    rw [hread] at hproject
    have hsame : p = rs.st key'.1 := hproject.elim id fun hload =>
      hload.trans (Project.loaded_of_project (Project.project_of_file env key'.1 hpf))
    rw [hsame, ← heq]
    exact ⟨h.file, h.stored⟩
  cases hmove with
  | fail hr hdirty hdoc hsave => exact h.saves hkept hr hsave
  | write hr hdirty hdoc hsave => exact (h.saves hkept hr hsave).setRoom (h.other hr)
  | leave hr hclean => exact h.drop _
  | read hdoc => exact hread hdoc
  | @make key' r doc rev env p now hnone hdoc hr =>
    -- there is nothing to make a room of
    refine (hread hdoc).setRoom ?_
    rintro rfl
    have hgone := (hread hdoc).stored
    have hstored := (hkept.reads hdoc).2 doc rev rfl
    rw [hgone] at hstored
    cases hstored.2
  | touch subs lastTouch hr => exact h.setRoom (h.other hr)

theorem Gone.moves (h : Gone rs key) (hkept : Kept rs told) (hmoves : Moves rs rs') :
    Gone rs' key :=
  (Moves.invariant (P := fun rs => Kept rs told ∧ Gone rs key) hmoves ⟨hkept, h⟩
    fun _ _ h hmove => ⟨h.1.move hmove, h.2.move h.1 hmove⟩).2

theorem Gone.exec {s : Lifecycle} (h : Gone s.rooms key) (hkept : Kept s.rooms told)
    (e : Lifecycle.Event) : Gone (s.exec e).rooms key := by
  cases e with
  | open' o now key' => exact h.moves hkept (s.rooms.open_moves o now key')
  | release now key' => exact h.moves hkept (s.rooms.release_moves now key')
  | apply o key' offer =>
    show Gone (s.rooms.apply o key' offer).1 key
    rcases s.rooms.apply_moves o key' offer with ⟨-, -, hmoves⟩ | ⟨rs₁, r, -, hmoves, hr, heq⟩
    · exact h.moves hkept hmoves
    · have hgone := h.moves hkept hmoves
      rw [heq]
      exact hgone.setRoom (hgone.other hr)
  | replace key' doc by' now =>
    show Gone (s.rooms.replace key' doc by' now).1 key
    unfold Rooms.replace
    split
    · exact h
    · next r hr => exact h.setRoom (h.other hr)
  | snapshot env key' => exact h.moves hkept (s.rooms.snapshot_moves env key')
  | sweep now order first again =>
    exact h.moves hkept (Rooms.sweep_moves now first again order s.rooms)
  | flushAll order saves => exact h.moves hkept (Rooms.flushAll_moves saves order s.rooms)

end Rooms

namespace Deletion

inductive Event where
  | room (e : Lifecycle.Event)
  /-- A deletion drops the room. -/
  | drop (key : RoomKey)
  /-- A deletion comes to the file. -/
  | finish (env : Env) (key : RoomKey)

def unsaved (rs : Rooms) (key : RoomKey) : Bool := (rs.rooms[key]?).any fun r => r.dirty

def exec (s : Deletion) : Event → Deletion
  | .room e => { s with toLifecycle := s.toLifecycle.exec e }
  | .drop key =>
    { s with rooms := s.rooms.drop key
             pending := Function.update s.pending key (s.pending key + 1)
             lost := Function.update s.lost key (s.lost key || unsaved s.rooms key) }
  | .finish env key =>
    match (s.rooms.st key.1).delete env key.1 key.2 with
    | (p, result) =>
      { s with rooms := s.rooms.setProject key.1 p
               pending := Function.update s.pending key (s.pending key - 1)
               deleted := Function.update s.deleted key (s.deleted key || result.toBool) }

/-- A deletion comes to the file once it has dropped the room. -/
def Happens (s : Deletion) (e : Event) (t : Deletion) : Prop :=
  (∀ env key, e = .finish env key → 0 < s.pending key) ∧ s.exec e = t

/-- Nobody has come back to the board that is taken off the file, and the file lists it once;
and where a deletion fails, the room had nothing unsaved and the file is not put aside. -/
def Safe (s : Deletion) : Event → Prop
  | .room e => Lifecycle.Fitting s.toLifecycle e
  | .drop _ => True
  | .finish env key =>
    ((s.rooms.st key.1).Deletable env key.1 key.2 → s.rooms.rooms[key]? = none ∧
      ∀ q pf, (s.rooms.st key.1).project env key.1 = (q, .ok pf) →
        (pf.boards.filter fun b => b.id = key.2).length ≤ 1) ∧
    (¬ (s.rooms.st key.1).Deletable env key.1 key.2 →
      s.deleted key = true ∨ (s.lost key = false ∧ ¬ (s.rooms.st key.1).PutsAside env))

/-- What was told, but of boards that are deleted or whose room was dropped too soon. -/
def held (s : Deletion) : Told := fun key => if s.lost key || s.deleted key then none else s.told key

structure Inv (s : Deletion) : Prop where
  kept : s.rooms.Kept s.held
  gone : ∀ key, s.deleted key = true → s.rooms.Gone key

section Steps

variable {s t : Deletion} {e : Event} {key : RoomKey}

section Tell

variable {told told' new new' : Told}

/-- What is told of a board is new, or it is what was told before. -/
def Local (told told' new new' : Told) : Prop :=
  ∀ key, new key = new' key ∨ (new key = told key ∧ new' key = told' key)

theorem Local.same : Local told told' told told' := fun _ => .inr ⟨rfl, rfl⟩

theorem Local.tell (key : RoomKey) (r : Room) :
    Local told told' (Rooms.tell told key r) (Rooms.tell told' key r) := by
  intro key'
  unfold Rooms.tell
  by_cases hkey : key' = key
  · subst hkey
    rw [Function.update_self, Function.update_self]
    exact .inl rfl
  · rw [Function.update_of_ne hkey, Function.update_of_ne hkey]
    exact .inr ⟨rfl, rfl⟩

theorem Local.tellApplied (key : RoomKey) (rs : Rooms) (result : Except Err Applied) :
    Local told told' (Rooms.tellApplied told key rs result) (Rooms.tellApplied told' key rs result) := by
  cases result with
  | error e => exact .same
  | ok a =>
    unfold Rooms.tellApplied
    cases rs.rooms[key]? with
    | none => exact .same
    | some r => exact .tell key r

theorem Local.tellReplaced (key : RoomKey) (rs : Rooms) (result : Option (Except Err Int)) :
    Local told told' (Rooms.tellReplaced told key rs result)
      (Rooms.tellReplaced told' key rs result) := by
  rcases result with - | - | rev
  · exact .same
  · exact .same
  · unfold Rooms.tellReplaced
    cases rs.rooms[key]? with
    | none => exact .same
    | some r => exact .tell key r

theorem told_exec (l : Lifecycle) (told : Told) (e : Lifecycle.Event) :
    Local told l.told (Lifecycle.exec { l with told } e).told (l.exec e).told := by
  cases e with
  | apply o key offer => exact .tellApplied key _ _
  | replace key doc by' now => exact .tellReplaced key _ _
  | _ => exact .same

end Tell

theorem held_of_not (hlost : s.lost key = false) (hdeleted : s.deleted key = false) :
    s.held key = s.told key := by
  unfold held
  rw [hlost, hdeleted]
  rfl

theorem inv_room {e : Lifecycle.Event} (h : Inv s) (hfits : Lifecycle.Fitting s.toLifecycle e) :
    Inv (s.exec (.room e)) := by
  have hrooms := (s.toLifecycle.exec_tell s.held e).1
  have hkept := Lifecycle.kept_exec (s := { s.toLifecycle with told := s.held }) h.kept
    (e := e) (by cases e <;> exact hfits)
  rw [hrooms] at hkept
  refine ⟨hkept.forget fun key => ?_, fun key hdeleted => (h.gone key hdeleted).exec h.kept e⟩
  cases hmask : s.lost key || s.deleted key with
  | true =>
    refine .inl ?_
    show (if (s.lost key || s.deleted key) = true then _ else _) = _
    rw [if_pos hmask]
  | false =>
    refine .inr ?_
    show (if (s.lost key || s.deleted key) = true then _ else (s.toLifecycle.exec e).told key) = _
    rw [hmask, if_neg Bool.false_ne_true]
    have hheld : s.held key = s.told key :=
      held_of_not (Bool.or_eq_false_iff.mp hmask).1 (Bool.or_eq_false_iff.mp hmask).2
    rcases told_exec s.toLifecycle s.held e key with heq | ⟨heq, hsame⟩
    · exact heq.symm
    · rw [heq, hsame, hheld]

theorem inv_drop (h : Inv s) (key : RoomKey) : Inv (s.exec (.drop key)) := by
  have hless : ∀ key', (s.exec (.drop key)).held key' = none ∨
      (s.exec (.drop key)).held key' = s.held key' := by
    intro key'
    show (if (Function.update s.lost key _ key' || s.deleted key') = true then _ else _) = _ ∨
      (if (Function.update s.lost key _ key' || s.deleted key') = true then _ else _) = _
    by_cases hkey : key' = key
    · subst hkey
      rw [Function.update_self]
      cases hunsaved : unsaved s.rooms key' with
      | true =>
        rw [Bool.or_true, Bool.true_or, if_pos rfl]
        exact .inl rfl
      | false =>
        rw [Bool.or_false]
        exact .inr rfl
    · rw [Function.update_of_ne hkey]
      exact .inr rfl
  refine ⟨(h.kept.forget hless).drop fun r hr => ?_, fun key' hdeleted => (h.gone key' hdeleted).drop key⟩
  cases hdirty : r.dirty with
  | false => exact .inl rfl
  | true =>
    refine .inr ?_
    have hunsaved : unsaved s.rooms key = true := by
      unfold unsaved
      rw [hr]
      exact hdirty
    show (if (Function.update s.lost key _ key || s.deleted key) = true then _ else _) = _
    rw [Function.update_self, hunsaved, Bool.or_true, Bool.true_or, if_pos rfl]

/-- The half of a deletion that is about the file fails, and loads the project at most, or
takes the board off. -/
theorem delete_cases (p : Project) (env : Env) (projectID id : String) :
    (¬ p.Deletable env projectID id ∧ ∃ e, (p.delete env projectID id).2 = .error e ∧
      ((p.delete env projectID id).1 = p ∨ (p.delete env projectID id).1 = p.loaded env projectID)) ∨
    (p.Deletable env projectID id ∧ (p.delete env projectID id).2 = .ok () ∧
      ∃ q pf, p.project env projectID = (q, .ok pf) ∧
        Project.Deleted env id q pf (p.delete env projectID id).1 (.ok ())) := by
  have hiff := Project.delete_iff p env projectID id
  have hout := Project.delete_outcome p env projectID id
  generalize p.delete env projectID id = out at hiff hout
  cases hout with
  | refused e => exact .inl ⟨fun h => (nomatch hiff.mpr h), e, rfl, .inl rfl⟩
  | failed e => exact .inl ⟨fun h => (nomatch hiff.mpr h), e, rfl, .inr rfl⟩
  | did hload hdid =>
    obtain rfl := hdid.done
    exact .inr ⟨hiff.mp rfl, rfl, _, _, hload, hdid⟩

/-- A deletion that fails leaves the registry what it has in memory. -/
theorem inv_failed (h : Inv s) {env : Env} {p : Project} (hproject : p = s.rooms.st key.1 ∨
    p = (s.rooms.st key.1).loaded env key.1) :
    (s.rooms.setProject key.1 p).Kept s.held ∧
      ∀ key', s.deleted key' = true → (s.rooms.setProject key.1 p).Gone key' := by
  have hagrees : p.Agrees := by
    rcases hproject with rfl | rfl
    · exact h.kept.agrees key.1
    · exact ((h.kept.agrees key.1).loaded env key.1).1
  have hsame : (s.rooms.st key.1).file.isSome → p = s.rooms.st key.1 := by
    intro hfile
    obtain ⟨pf, hpf⟩ := Option.isSome_iff_exists.mp hfile
    exact hproject.elim id fun heq =>
      heq.trans (Project.loaded_of_project (Project.project_of_file env key.1 hpf))
  constructor
  · refine h.kept.setProject hagrees fun hfile => ?_
    rw [hsame hfile]
    exact ⟨hfile, fun _ => .inl rfl⟩
  · intro key' hdeleted
    have hgone := h.gone key' hdeleted
    refine hgone.setProject fun heq => ?_
    have hfile := hgone.file
    rw [heq] at hfile
    rw [hsame hfile, ← heq]
    exact ⟨hgone.file, hgone.stored⟩

theorem deleted_finish (s : Deletion) (env : Env) (key : RoomKey) :
    (s.exec (.finish env key)).deleted = Function.update s.deleted key
      (s.deleted key || ((s.rooms.st key.1).delete env key.1 key.2).2.toBool) :=
  rfl

theorem rooms_finish (s : Deletion) (env : Env) (key : RoomKey) :
    (s.exec (.finish env key)).rooms =
      s.rooms.setProject key.1 ((s.rooms.st key.1).delete env key.1 key.2).1 :=
  rfl

theorem inv_finish (h : Inv s) {env : Env} (hsafe : Safe s (.finish env key)) :
    Inv (s.exec (.finish env key)) := by
  rcases delete_cases (s.rooms.st key.1) env key.1 key.2 with
    ⟨-, e, herr, hproject⟩ | ⟨hdel, hok, q, pf, hload, hdeleted⟩
  · obtain ⟨hkept, hgone⟩ := inv_failed h hproject
    have hflags : (s.exec (.finish env key)).deleted = s.deleted := by
      rw [deleted_finish, herr]
      show Function.update s.deleted key (s.deleted key || false) = _
      rw [Bool.or_false, Function.update_eq_self]
    have hheld : (s.exec (.finish env key)).held = s.held := by
      unfold held
      rw [hflags]
      rfl
    refine ⟨?_, fun key' => ?_⟩
    · rw [hheld]
      exact hkept
    · rw [hflags]
      exact hgone key'
  · obtain ⟨hroom, honce⟩ := hsafe.1 hdel
    have hloaded := ((h.kept.agrees key.1).loaded env key.1).1
    rw [Project.loaded_of_project hload] at hloaded
    obtain ⟨hagrees, hfile, hother, hgone⟩ := hloaded.deletes (Project.file_of_project hload) hdeleted
    have hflags : (s.exec (.finish env key)).deleted = Function.update s.deleted key true := by
      rw [deleted_finish, hok]
      show Function.update s.deleted key (s.deleted key || true) = _
      rw [Bool.or_true]
    have hless : ∀ key', (s.exec (.finish env key)).held key' = none ∨
        (s.exec (.finish env key)).held key' = s.held key' := by
      intro key'
      unfold held
      rw [hflags]
      by_cases hkey : key' = key
      · subst hkey
        rw [Function.update_self, Bool.or_true, if_pos rfl]
        exact .inl rfl
      · rw [Function.update_of_ne hkey]
        exact .inr rfl
    have hnever : (s.exec (.finish env key)).held key = none := by
      unfold held
      rw [hflags, Function.update_self, Bool.or_true, if_pos rfl]
    have hsame : (s.rooms.st key.1).file.isSome → q = s.rooms.st key.1 := by
      intro hmem
      obtain ⟨pf', hpf'⟩ := Option.isSome_iff_exists.mp hmem
      rw [Project.project_of_file env key.1 hpf'] at hload
      exact (Prod.mk.inj hload).1.symm
    refine ⟨(h.kept.forget hless).setProject hagrees fun hmem => ⟨hfile, fun id => ?_⟩,
      fun key' hkey' => ?_⟩
    · by_cases hid : id = key.2
      · exact .inr (.inr (hid ▸ ⟨hroom, hnever⟩))
      · exact .inl ((hother id hid).trans (congrArg (fun p => p.stored id) (hsame hmem)))
    · rw [hflags] at hkey'
      by_cases hkey : key' = key
      · subst hkey
        refine ⟨hroom, ?_, ?_⟩
        · rw [rooms_finish, Rooms.stored, Rooms.setProject_same]
          exact hgone (honce q pf hload)
        · rw [rooms_finish, Rooms.setProject_same]
          exact hfile
      · rw [Function.update_of_ne hkey] at hkey'
        have hgone' := h.gone key' hkey'
        refine hgone'.setProject fun heq => ?_
        have hmem := hgone'.file
        rw [heq] at hmem
        have hid : key'.2 ≠ key.2 := fun hid => hkey (Prod.ext heq hid)
        refine ⟨hfile, (hother key'.2 hid).trans ?_⟩
        rw [hsame hmem, ← heq]
        exact hgone'.stored

theorem inv_step (h : Inv s) (hsafe : Safe s e) (hstep : Happens s e t) : Inv t := by
  obtain ⟨-, rfl⟩ := hstep
  cases e with
  | room e => exact inv_room h hsafe
  | drop key => exact inv_drop h key
  | finish env key => exact inv_finish h hsafe

theorem inv_run {st : String → Project} (hst : ∀ projectID, (st projectID).file = none)
    {events : List Event} (hrun : Run Happens Safe { rooms := { st } } events s) : Inv s :=
  hrun.invariant (P := Inv)
    ⟨Lifecycle.kept_start hst, fun _ hdeleted => (nomatch hdeleted)⟩
    fun _ _ _ h hsafe hstep => inv_step h hsafe hstep

/-- What a board comes to, and what was told of it last: its room has it, or the store. -/
def Holds (s : Deletion) (key : RoomKey) : Prop :=
  ∀ ld rev, s.told key = some (ld, rev) →
    (∃ r, s.rooms.rooms[key]? = some r ∧ ld.Alike r.live ∧ rev = r.rev) ∨
      (s.rooms.rooms[key]? = none ∧ Stands (s.rooms.stored key) ld rev)

/-- **A deleted board is gone, and a board that is not has everything.** Once a deletion has
come off there is no room for the board, and no event makes one; and a deletion that fails
leaves the board as it was stored, with the last state that was told of it. -/
theorem deletion_whole {st : String → Project} (hst : ∀ projectID, (st projectID).file = none)
    {events : List Event} (hrun : Run Happens Safe { rooms := { st } } events s) :
    (∀ key, s.deleted key = true → s.rooms.rooms[key]? = none) ∧
    ∀ env key t, Safe s (.finish env key) → Happens s (.finish env key) t →
      t.deleted key = false →
      t.rooms.stored key = s.rooms.stored key ∧ t.rooms.rooms = s.rooms.rooms ∧
        t.told = s.told ∧ t.Holds key := by
  have hinv := inv_run hst hrun
  refine ⟨fun key hdeleted => (hinv.gone key hdeleted).room, fun env key t hsafe hstep hleft => ?_⟩
  have hinv' := inv_step hinv hsafe hstep
  obtain ⟨-, rfl⟩ := hstep
  have hflag : s.deleted key = false ∧
      ((s.rooms.st key.1).delete env key.1 key.2).2.toBool = false := by
    rw [deleted_finish, Function.update_self] at hleft
    exact Bool.or_eq_false_iff.mp hleft
  rcases delete_cases (s.rooms.st key.1) env key.1 key.2 with
    ⟨hnot, e, herr, hproject⟩ | ⟨-, hok, -⟩
  · obtain ⟨hlost, haside⟩ := (hsafe.2 hnot).resolve_left (Bool.eq_false_iff.mp hflag.1)
    refine ⟨?_, rfl, rfl, fun ld rev htold => ?_⟩
    · rw [rooms_finish, Rooms.stored, Rooms.setProject_same]
      rcases hproject with heq | heq
      · rw [heq]
        rfl
      · rw [heq]
        exact Project.loaded_stored haside key.1 key.2
    · have hheld := (held_of_not (s := s.exec (.finish env key)) hlost hleft).trans htold
      cases hr : (s.exec (.finish env key)).rooms.rooms[key]? with
      | none => exact .inr ⟨rfl, hinv'.kept.gone key ld rev hr hheld⟩
      | some r =>
        obtain ⟨halike, hrev⟩ := hinv'.kept.live key r ld rev hr hheld
        exact .inl ⟨r, rfl, halike, hrev⟩
  · rw [hok] at hflag
    cases hflag.2

end Steps

/-! ### A client that comes back -/

open Lifecycle (key openKey steadily)

/-- The files of a project with one board. -/
def files : String → Project := (Lifecycle.start 0).rooms.st

theorem files_unread (projectID : String) : (files projectID).file = none := by
  show (Function.update (fun _ => ({} : Project)) "p" (Lifecycle.onDisk 0) projectID).file = none
  rw [Function.update_apply]
  split <;> rfl

def start : Deletion := { rooms := { st := files } }

def opened : Deletion := { toLifecycle := Lifecycle.opened 0 }

theorem start_opened : Happens start (.room openKey) opened := by
  refine ⟨fun _ _ h => (nomatch h), ?_⟩
  show { start with toLifecycle := (Lifecycle.start 0).exec openKey } = opened
  rw [Lifecycle.start_opened]
  rfl

/-- The board is deleted while it is open. -/
def dropped : Deletion := opened.exec (.drop key)

/-- The file cannot be written. -/
def unsaving : Env := { steadily with saveFails := true }

example : dropped.pending key = 1 ∧ dropped.deleted key = false := by
  decide +kernel

theorem run_dropped : Run Happens Safe start [.room openKey, .drop key] dropped :=
  .cons trivial start_opened (.single trivial ⟨fun _ _ h => (nomatch h), rfl⟩)

/-- The board is in memory, once. -/
theorem listed_dropped : ∃ pf, (dropped.rooms.st key.1).file = some pf ∧
    (pf.boards.filter fun b => b.id = key.2).length = 1 := by
  have hlisted : (dropped.rooms.st key.1).file.map (fun pf =>
      (pf.boards.filter fun b => b.id = key.2).length) = some 1 := by decide +kernel
  exact Option.map_eq_some_iff.mp hlisted

theorem deletion_whole_once :
    (dropped.exec (.finish steadily key)).rooms.rooms[key]? = none ∧
      (dropped.exec (.finish unsaving key)).rooms.stored key = dropped.rooms.stored key := by
  obtain ⟨pf, hpf, honce⟩ := listed_dropped
  have hproject : ∀ env, (dropped.rooms.st key.1).project env key.1 =
      (dropped.rooms.st key.1, .ok pf) := fun env => Project.project_of_file env key.1 hpf
  have hsafe : Safe dropped (.finish steadily key) := by
    refine ⟨fun _ => ⟨Option.not_isSome_iff_eq_none.mp (by decide +kernel), fun q pf' hload => ?_⟩,
      fun _ => .inr ⟨by decide +kernel, fun haside => ?_⟩⟩
    · rw [hproject] at hload
      cases hload
      exact honce.le
    · rw [haside.1] at hpf
      cases hpf
  have hunsafe : Safe dropped (.finish unsaving key) := by
    refine ⟨fun hdel => (nomatch hdel.saves.2), fun _ => .inr ⟨by decide +kernel, fun haside => ?_⟩⟩
    rw [haside.1] at hpf
    cases hpf
  have hone : 0 < dropped.pending key := by decide +kernel
  have hpending : ∀ env, Happens dropped (.finish env key) (dropped.exec (.finish env key)) := by
    refine fun env => ⟨?_, rfl⟩
    rintro _ _ ⟨⟩
    exact hone
  have hrun := run_dropped.append (.single hsafe (hpending steadily))
  exact ⟨(deletion_whole files_unread hrun).1 key (by decide +kernel),
    ((deletion_whole files_unread run_dropped).2 unsaving key _ hunsafe (hpending unsaving)
      (by decide +kernel)).1⟩

/-- A client comes back before the file is done with. -/
def returned : Deletion := (dropped.exec (.room openKey)).exec (.finish steadily key)

def drawn : Deletion := opened.exec (.room (.apply { env := steadily } key Room.drawX))

/-- A shape is drawn, and the deletion fails. -/
def undone : Deletion := (drawn.exec (.drop key)).exec (.finish unsaving key)

example : undone.rooms.rooms[key]?.isNone ∧ undone.deleted key = false := by
  decide +kernel

/-- **A board that is deleted has a room, and one that is not has lost a shape.** -/
theorem deletion_not_whole :
    (∃ (st : String → Project) (events : List Event) (s : Deletion),
      (∀ projectID, (st projectID).file = none) ∧ Run Happens always { rooms := { st } } events s ∧
        s.deleted key = true ∧ (s.rooms.rooms[key]?).isSome) ∧
    ∃ (st : String → Project) (events : List Event) (s : Deletion),
      (∀ projectID, (st projectID).file = none) ∧ Run Happens always { rooms := { st } } events s ∧
        s.deleted key = false ∧ ¬ s.Holds key := by
  have hfirst : Run Happens always { rooms := { st := files } } [.room openKey] opened :=
    .single trivial start_opened
  constructor
  · refine ⟨files, [.room openKey] ++ [.drop key, .room openKey, .finish steadily key], returned,
      files_unread, hfirst.append ?_, by decide +kernel, by decide +kernel⟩
    refine .cons trivial ⟨fun _ _ h => (nomatch h), rfl⟩
      (.cons trivial ⟨fun _ _ h => (nomatch h), rfl⟩ (.single trivial ⟨?_, rfl⟩))
    rintro _ _ ⟨⟩
    decide +kernel
  · refine ⟨files, [.room openKey] ++ [.room (.apply { env := steadily } key Room.drawX), .drop key,
      .finish unsaving key], undone, files_unread, hfirst.append ?_, by decide +kernel, ?_⟩
    · refine .cons trivial ⟨fun _ _ h => (nomatch h), rfl⟩
        (.cons trivial ⟨fun _ _ h => (nomatch h), rfl⟩ (.single trivial ⟨?_, rfl⟩))
      rintro _ _ ⟨⟩
      decide +kernel
    · intro hholds
      have hnone : undone.rooms.rooms[key]? = none :=
        Option.not_isSome_iff_eq_none.mp (by decide +kernel)
      have hrev : (undone.rooms.stored key).map Prod.snd = some 1 := by decide +kernel
      have htold : (undone.told key).map Prod.snd = some 2 := by decide +kernel
      obtain ⟨⟨ld, rev⟩, htold', rfl⟩ := Option.map_eq_some_iff.mp htold
      rcases hholds ld _ htold' with ⟨r, hr, -⟩ | ⟨-, doc, ld', hstored, -⟩
      · rw [hnone] at hr
        cases hr
      · rw [hstored] at hrev
        cases hrev

end Deletion

end FusionLocalServer.Whiteboards
