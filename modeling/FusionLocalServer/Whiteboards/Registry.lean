import FusionLocalServer.Whiteboards.Moves

/-!
# What the registry of rooms keeps

With each board goes the last state a client was told of (`Told`). While there is a room for
the board, the room has it; when there is none, or the room has nothing unsaved, it is what
is on disk (`Kept`). Every operation of the registry keeps this, whatever fails, as long as no
patch is folded in that is then refused.
-/

namespace FusionLocalServer.Whiteboards

open Lib Std

/-- The last state of each board that was told, with its revision. -/
abbrev Told := RoomKey → Option (LiveDoc × Int)

/-- What is stored holds a document, at a revision. -/
def Stands (stored : Option (Option (List Char) × Int)) (ld : LiveDoc) (rev : Int) : Prop :=
  ∃ doc ld', stored = some (doc, rev) ∧ readStored doc = some ld' ∧ ld'.Alike ld

theorem Stands.alike {stored : Option (Option (List Char) × Int)} {ld ld' : LiveDoc} {rev : Int}
    (h : Stands stored ld rev) (halike : ld.Alike ld') : Stands stored ld' rev := by
  obtain ⟨doc, read, hstored, hread, hsame⟩ := h
  exact ⟨doc, read, hstored, hread, hsame.trans halike⟩

namespace Rooms

variable {rs rs' : Rooms} {told : Told} {key : RoomKey} {r : Room}

structure Kept (rs : Rooms) (told : Told) : Prop where
  agrees : ∀ projectID, (rs.st projectID).Agrees
  keyed : ∀ (key : RoomKey) (r : Room), rs.rooms[key]? = some r →
    r.projectID = key.1 ∧ r.boardID = key.2
  /-- A project with a room, or of which something was told, is in memory. -/
  loaded : ∀ key : RoomKey, (rs.rooms[key]?).isSome ∨ (told key).isSome → (rs.st key.1).file.isSome
  clean : ∀ (key : RoomKey) (r : Room), rs.rooms[key]? = some r → r.dirty = false →
    Stands (rs.stored key) r.live r.rev
  live : ∀ (key : RoomKey) (r : Room) ld rev, rs.rooms[key]? = some r →
    told key = some (ld, rev) → ld.Alike r.live ∧ rev = r.rev
  gone : ∀ (key : RoomKey) ld rev, rs.rooms[key]? = none → told key = some (ld, rev) →
    Stands (rs.stored key) ld rev

/-! ## The parts of a registry -/

/-- What is on disk of a board does not matter: it is to be written still, or nobody was told
anything of it. -/
def Unsettled (rs : Rooms) (told : Told) (key : RoomKey) : Prop :=
  (∃ r, rs.rooms[key]? = some r ∧ r.dirty = true) ∨ (rs.rooms[key]? = none ∧ told key = none)

/-- A project changes, but only in what does not matter. -/
theorem Kept.setProject (h : Kept rs told) {projectID : String} {p : Project} (hagrees : p.Agrees)
    (hsame : (rs.st projectID).file.isSome → p.file.isSome ∧ ∀ id,
      p.stored id = (rs.st projectID).stored id ∨ rs.Unsettled told (projectID, id)) :
    Kept (rs.setProject projectID p) told := by
  have hstored : ∀ key, ((rs.st key.1).file.isSome) → (rs.setProject projectID p).stored key =
      rs.stored key ∨ rs.Unsettled told key := by
    intro key hfile
    unfold stored
    by_cases hp : key.1 = projectID
    · rw [← hp, setProject_same]
      rw [← hp] at hsame
      exact (hsame hfile).2 key.2
    · rw [setProject_other hp]
      exact .inl rfl
  refine ⟨fun projectID' => ?_, h.keyed, fun key hkey => ?_, fun key r hr hclean => ?_, h.live,
    fun key ld rev hnone htold => ?_⟩
  · by_cases hp : projectID' = projectID
    · rw [hp, setProject_same]
      exact hagrees
    · rw [setProject_other hp]
      exact h.agrees projectID'
  · have hfile := h.loaded key hkey
    by_cases hp : key.1 = projectID
    · rw [hp, setProject_same]
      exact (hsame (hp ▸ hfile)).1
    · rw [setProject_other hp]
      exact hfile
  · have hr' : rs.rooms[key]? = some r := hr
    have hfile := h.loaded key (.inl (Option.isSome_of_eq_some hr'))
    rcases hstored key hfile with heq | ⟨r', hroom, hdirty⟩ | ⟨hroom, -⟩
    · rw [heq]
      exact h.clean key r hr hclean
    · rw [hr'] at hroom
      cases hroom
      rw [hclean] at hdirty
      cases hdirty
    · rw [hr'] at hroom
      cases hroom
  · have hnone' : rs.rooms[key]? = none := hnone
    have hfile := h.loaded key (.inr (Option.isSome_of_eq_some htold))
    rcases hstored key hfile with heq | ⟨r', hroom, -⟩ | ⟨-, hnever⟩
    · rw [heq]
      exact h.gone key ld rev hnone htold
    · rw [hnone'] at hroom
      cases hroom
    · rw [hnever] at htold
      cases htold

/-- A room changes, or is made, and with it what is told of its board. -/
theorem Kept.setRoom (h : Kept rs told) {told' : Told} (hother : ∀ key' ≠ key, told' key' = told key')
    (hkeyed : r.projectID = key.1 ∧ r.boardID = key.2) (hfile : (rs.st key.1).file.isSome)
    (hclean : r.dirty = false → Stands (rs.stored key) r.live r.rev)
    (htold : ∀ ld rev, told' key = some (ld, rev) → ld.Alike r.live ∧ rev = r.rev) :
    Kept (rs.setRoom key r) told' := by
  refine ⟨h.agrees, fun key' r' hr' => ?_, fun key' hkey' => ?_, fun key' r' hr' hclean' => ?_,
    fun key' r' ld rev hr' htold' => ?_, fun key' ld rev hnone htold' => ?_⟩
  all_goals
    by_cases hkey : key = key'
  · subst hkey
    rw [setRoom_get, if_pos rfl] at hr'
    cases hr'
    exact hkeyed
  · rw [setRoom_get, if_neg hkey] at hr'
    exact h.keyed key' r' hr'
  · exact hkey ▸ hfile
  · rw [setRoom_get, if_neg hkey, hother key' (Ne.symm hkey)] at hkey'
    exact h.loaded key' hkey'
  · subst hkey
    rw [setRoom_get, if_pos rfl] at hr'
    cases hr'
    exact hclean hclean'
  · rw [setRoom_get, if_neg hkey] at hr'
    exact h.clean key' r' hr' hclean'
  · subst hkey
    rw [setRoom_get, if_pos rfl] at hr'
    cases hr'
    exact htold ld rev htold'
  · rw [setRoom_get, if_neg hkey] at hr'
    exact h.live key' r' ld rev hr' (hother key' (Ne.symm hkey) ▸ htold')
  · rw [setRoom_get, if_pos hkey] at hnone
    cases hnone
  · rw [setRoom_get, if_neg hkey] at hnone
    exact h.gone key' ld rev hnone (hother key' (Ne.symm hkey) ▸ htold')

/-- A room may go that has nothing unsaved, or of which nobody was told anything. -/
theorem Kept.drop (h : Kept rs told)
    (hclean : ∀ r, rs.rooms[key]? = some r → r.dirty = false ∨ told key = none) :
    Kept (rs.drop key) told := by
  have hold : ∀ {key' : RoomKey} {r' : Room}, (rs.drop key).rooms[key']? = some r' → rs.rooms[key']? = some r' := by
    intro key' r' hr'
    rw [drop_get] at hr'
    split at hr'
    · cases hr'
    · exact hr'
  refine ⟨h.agrees, fun key' r' hr' => h.keyed key' r' (hold hr'), fun key' hkey' => ?_,
    fun key' r' hr' => h.clean key' r' (hold hr'),
    fun key' r' ld rev hr' => h.live key' r' ld rev (hold hr'), fun key' ld rev hnone htold => ?_⟩
  · rcases hkey' with hroom | htold
    · obtain ⟨r', hr'⟩ := Option.isSome_iff_exists.mp hroom
      exact h.loaded key' (.inl (Option.isSome_of_eq_some (hold hr')))
    · exact h.loaded key' (.inr htold)
  · by_cases hkey : key = key'
    · subst hkey
      cases hr : rs.rooms[key]? with
      | none => exact h.gone key ld rev hr htold
      | some r =>
        obtain ⟨halike, rfl⟩ := h.live key r ld rev hr htold
        rcases hclean r hr with hclean | hnever
        · exact (h.clean key r hr hclean).alike halike.symm
        · rw [hnever] at htold
          cases htold
    · rw [drop_get, if_neg hkey] at hnone
      exact h.gone key' ld rev hnone htold

/-- Less may be told. -/
theorem Kept.forget (h : Kept rs told) {told' : Told}
    (hless : ∀ key, told' key = none ∨ told' key = told key) : Kept rs told' := by
  have hsome : ∀ {key : RoomKey} {ld rev}, told' key = some (ld, rev) → told key = some (ld, rev) := by
    intro key ld rev htold
    rcases hless key with hnone | hsame
    · rw [hnone] at htold
      cases htold
    · exact hsame ▸ htold
  refine ⟨h.agrees, h.keyed, fun key hkey => h.loaded key (hkey.imp id fun htold => ?_), h.clean,
    fun key r ld rev hr htold => h.live key r ld rev hr (hsome htold),
    fun key ld rev hnone htold => h.gone key ld rev hnone (hsome htold)⟩
  obtain ⟨⟨ld, rev⟩, hkey⟩ := Option.isSome_iff_exists.mp htold
  exact Option.isSome_of_eq_some (hsome hkey)

/-! ## Moves -/

/-- A room is written, or half written. -/
theorem Kept.saves (h : Kept rs told) (hr : rs.rooms[key]? = some r) (hdirty : r.dirty = true)
    {env : Env} {doc : List Char} {p : Project} {result : Except Err Board}
    (hsave : (rs.st r.projectID).saveSnapshotAtRev env r.projectID r.boardID doc r.lastBy r.rev =
      (p, result)) :
    Kept (rs.setProject r.projectID p) told ∧ p.file.isSome ∧
      ∀ b, result = .ok b → Project.checkDoc doc = .ok () ∧
        (rs.setProject r.projectID p).stored key = some (some doc, r.rev) := by
  obtain ⟨hproject, hboard⟩ := h.keyed key r hr
  have hfile := h.loaded key (.inl (Option.isSome_of_eq_some hr))
  obtain ⟨pf, hpf⟩ := Option.isSome_iff_exists.mp hfile
  rw [hproject, hboard] at hsave
  have hsaves := Project.saveSnapshotAtRev_saves (h.agrees key.1) hpf env key.1 key.2 doc
    r.lastBy r.rev
  rw [hsave] at hsaves
  rw [hproject]
  refine ⟨?_, hsaves.file, fun b hb => ?_⟩
  · refine h.setProject hsaves.agrees fun _ => ⟨hsaves.file, fun id => ?_⟩
    by_cases hid : id = key.2
    · exact .inr (.inl ⟨r, hid ▸ hr, hdirty⟩)
    · exact .inl (hsaves.other id hid)
  · obtain ⟨hcheck, -, -, -, hstored⟩ := hsaves.done b hb
    refine ⟨hcheck, ?_⟩
    unfold stored
    rw [setProject_same]
    exact hstored

/-- Reading a document loads its project, and nothing else. -/
theorem Kept.reads (h : Kept rs told) {env : Env} {p : Project}
    {result : Except Err (Option (List Char) × Int)}
    (hread : (rs.st key.1).document env key.1 key.2 = (p, result)) :
    Kept (rs.setProject key.1 p) told ∧
      ∀ doc rev, result = .ok (doc, rev) → p.file.isSome ∧
        (rs.setProject key.1 p).stored key = some (doc, rev) := by
  have hagrees := h.agrees key.1
  obtain ⟨hproject, hfound⟩ := hagrees.document env key.1 key.2
  rw [hread] at hproject hfound
  refine ⟨h.setProject ?_ fun hfile => ?_, fun doc rev hresult => ?_⟩
  · rcases hproject with heq | heq
    · have heq' : p = rs.st key.1 := heq
      rw [heq']
      exact hagrees
    · have heq' : p = (rs.st key.1).loaded env key.1 := heq
      rw [heq']
      exact (hagrees.loaded env key.1).1
  · -- a project that is in memory stays as it is
    obtain ⟨pf, hpf⟩ := Option.isSome_iff_exists.mp hfile
    have heq : p = rs.st key.1 := hproject.elim id fun heq =>
      heq.trans (Project.loaded_of_project (Project.project_of_file env key.1 hpf))
    rw [heq]
    exact ⟨hfile, fun _ => .inl rfl⟩
  · unfold stored
    rw [setProject_same]
    exact hfound doc rev hresult

/-- A room that is made of what is on disk has what was told last. -/
theorem Kept.load (h : Kept rs told) {doc : Option (List Char)} {rev : Int} {now : Time}
    (hnone : rs.rooms[key]? = none) (hfile : (rs.st key.1).file.isSome)
    (hstored : rs.stored key = some (doc, rev)) (hr : newRoom key.1 key.2 doc rev now = .ok r) :
    Kept (rs.setRoom key r) told := by
  obtain ⟨hlive, hrev, -, hproject, hboard⟩ := Room.newRoom_ok hr
  refine h.setRoom (fun _ _ => rfl) ⟨hproject, hboard⟩ hfile (fun _ => ?_) fun ld rev' htold => ?_
  · exact ⟨doc, r.live, hrev ▸ hstored, hlive, .refl _⟩
  · obtain ⟨doc', ld', hstored', hread, halike⟩ := h.gone key ld rev' hnone htold
    rw [hstored] at hstored'
    cases hstored'
    rw [hlive] at hread
    cases hread
    exact ⟨halike.symm, hrev.symm⟩

/-- A room that has what it had of its document. -/
theorem Kept.carry (h : Kept rs told) {r' : Room} (hr : rs.rooms[key]? = some r)
    (hcarries : r.Carries r') (hlive : r'.live = r.live) (hrev : r'.rev = r.rev) :
    Kept (rs.setRoom key r') told := by
  obtain ⟨hproject, hboard⟩ := h.keyed key r hr
  refine h.setRoom (fun _ _ => rfl)
    ⟨hcarries.projectID.trans hproject, hcarries.boardID.trans hboard⟩
    (h.loaded key (.inl (Option.isSome_of_eq_some hr))) (fun hclean => ?_) fun ld rev htold => ?_
  · rw [hlive, hrev]
    exact h.clean key r hr (hcarries.clean hclean).1
  · rw [hlive, hrev]
    exact h.live key r ld rev hr htold

theorem Kept.move (h : Kept rs told) (hmove : Move rs rs') : Kept rs' told := by
  cases hmove with
  | fail hr hdirty hdoc hsave => exact (h.saves hr hdirty hsave).1
  | @write key r doc env p b hr hdirty hdoc hsave =>
    obtain ⟨hset, hfile, hdone⟩ := h.saves hr hdirty hsave
    obtain ⟨hcheck, hstored⟩ := hdone b rfl
    obtain ⟨hne, -, hvalid⟩ := Project.checkDoc_ok_iff.mp hcheck
    have hkeyed := h.keyed key r hr
    refine hset.setRoom (fun _ _ => rfl) hkeyed ?_ (fun _ => ?_) fun ld rev htold => ?_
    · rw [← hkeyed.1, setProject_same]
      exact hfile
    · obtain ⟨ld, hread, halike⟩ := Room.document_read hdoc hvalid
      refine ⟨some doc, ld, hstored, ?_, halike⟩
      rw [readStored.eq_3 doc hne]
      exact hread
    · exact h.live key r ld rev hr htold
  | leave hr hclean =>
    refine h.drop fun r' hr' => .inl ?_
    rw [hr] at hr'
    cases hr'
    exact hclean
  | read hread => exact (h.reads hread).1
  | @make key r doc rev env p now hnone hread hr =>
    obtain ⟨hset, hdone⟩ := h.reads hread
    obtain ⟨hfile, hstored⟩ := hdone doc rev rfl
    exact hset.load hnone (by rw [setProject_same]; exact hfile) hstored hr
  | touch subs lastTouch hr => exact h.carry hr ⟨rfl, rfl, fun h => ⟨h, rfl, rfl⟩⟩ rfl rfl

theorem Kept.moves (h : Kept rs told) (hmoves : Moves rs rs') : Kept rs' told :=
  Moves.invariant (P := fun rs => Kept rs told) hmoves h fun _ _ h hmove => Kept.move h hmove

/-! ## The operations -/

/-- What a room now has of its document is told. -/
def tell (told : Told) (key : RoomKey) (r : Room) : Told :=
  Function.update told key (some (r.live, r.rev))

/-- A state can be told at any time. -/
theorem Kept.retold (h : Kept rs told) (hr : rs.rooms[key]? = some r) : Kept rs (tell told key r) := by
  have hother : ∀ key' ≠ key, Rooms.tell told key r key' = told key' :=
    fun key' hne => Function.update_of_ne hne ..
  refine ⟨h.agrees, h.keyed, fun key' hkey' => ?_, h.clean, fun key' r' ld rev hr' htold => ?_,
    fun key' ld rev hnone htold => ?_⟩
  · rcases hkey' with hroom | htold
    · exact h.loaded key' (.inl hroom)
    · by_cases hkey : key' = key
      · exact h.loaded key' (.inl (hkey ▸ Option.isSome_of_eq_some hr))
      · exact h.loaded key' (.inr (hother key' hkey ▸ htold))
  · by_cases hkey : key' = key
    · subst hkey
      rw [hr] at hr'
      cases hr'
      rw [Rooms.tell, Function.update_self] at htold
      cases htold
      exact ⟨.refl _, rfl⟩
    · exact h.live key' r' ld rev hr' (hother key' hkey ▸ htold)
  · have hkey : key' ≠ key := by
      rintro rfl
      rw [hr] at hnone
      cases hnone
    exact h.gone key' ld rev hnone (hother key' hkey ▸ htold)

theorem Kept.tells (h : Kept rs told) {r' : Room} (hr : rs.rooms[key]? = some r)
    (hcarries : r.Carries r') : Kept (rs.setRoom key r') (tell told key r') := by
  obtain ⟨hproject, hboard⟩ := h.keyed key r hr
  refine h.setRoom (fun key' hne => Function.update_of_ne hne ..)
    ⟨hcarries.projectID.trans hproject, hcarries.boardID.trans hboard⟩
    (h.loaded key (.inl (Option.isSome_of_eq_some hr))) (fun hclean => ?_) fun ld rev htold => ?_
  · obtain ⟨hold, hlive, hrev⟩ := hcarries.clean hclean
    rw [hlive, hrev]
    exact h.clean key r hr hold
  · rw [tell, Function.update_self] at htold
    cases htold
    exact ⟨.refl _, rfl⟩

/-- The patch does not go to a room that it makes too large. -/
def Fitting (rs : Rooms) (o : Opening) (key : RoomKey) (offer : Offer) : Prop :=
  ∀ r, (rs.roomLocked o offer.now key).2 = .ok r → ¬ r.Overfull offer.req

/-- What is told after a patch. -/
def tellApplied (told : Told) (key : RoomKey) (rs : Rooms) : Except Err Applied → Told
  | .error _ => told
  | .ok _ =>
    match rs.rooms[key]? with
    | none => told
    | some r => tell told key r

theorem Kept.apply (h : Kept rs told) {o : Opening} {key : RoomKey} {offer : Offer}
    (hfits : rs.Fitting o key offer) :
    Kept (rs.apply o key offer).1
      (tellApplied told key (rs.apply o key offer).1 (rs.apply o key offer).2) := by
  rcases rs.apply_moves o key offer with ⟨e, herr, hmoves⟩ | ⟨rs₁, r, hroom, hmoves, hr, heq⟩
  · rw [herr]
    exact h.moves hmoves
  · have hkept := h.moves hmoves
    have hfits := hfits r (by rw [hroom])
    rw [heq]
    cases happly : r.apply offer.order offer.req offer.by' offer.now with
    | mk r' result =>
      dsimp only
      cases result with
      | error e =>
        have hsame := Room.apply_of_refused (congrArg Prod.snd happly) hfits
        rw [happly] at hsame
        cases hsame
        exact hkept.carry hr (.refl _) rfl rfl
      | ok a =>
        have hcarries := Room.apply_carries (congrArg Prod.snd happly)
        rw [happly] at hcarries
        rw [tellApplied, setRoom_get, if_pos rfl]
        exact hkept.tells hr hcarries

/-- What is told after a replacement. -/
def tellReplaced (told : Told) (key : RoomKey) (rs : Rooms) : Option (Except Err Int) → Told
  | some (.ok _) =>
    match rs.rooms[key]? with
    | none => told
    | some r => tell told key r
  | _ => told

/-- Of a board without a room nothing is told. -/
theorem tell_of_none {key' : RoomKey} (hr : rs.rooms[key]? = some r) (hnone : rs.rooms[key']? = none) :
    tell told key r key' = told key' := by
  have hne : key' ≠ key := by
    rintro rfl
    rw [hr] at hnone
    cases hnone
  exact Function.update_of_ne hne ..

theorem tellApplied_of_none {key' : RoomKey} (result : Except Err Applied)
    (hnone : rs.rooms[key']? = none) : tellApplied told key rs result key' = told key' := by
  unfold tellApplied
  split
  · rfl
  · cases hr : rs.rooms[key]? with
    | none => rfl
    | some r => exact tell_of_none hr hnone

theorem tellReplaced_of_none {key' : RoomKey} (result : Option (Except Err Int))
    (hnone : rs.rooms[key']? = none) : tellReplaced told key rs result key' = told key' := by
  unfold tellReplaced
  split
  · cases hr : rs.rooms[key]? with
    | none => rfl
    | some r => exact tell_of_none hr hnone
  · rfl

theorem Kept.replace (h : Kept rs told) (key : RoomKey) (doc : List Char) (by' : UserRef)
    (now : Time) :
    Kept (rs.replace key doc by' now).1
      (tellReplaced told key (rs.replace key doc by' now).1 (rs.replace key doc by' now).2) := by
  unfold Rooms.replace
  split
  · exact h
  · next r hr =>
    split
    next r' result heq =>
    cases result with
    | error e =>
      obtain rfl := Room.replace_error heq
      exact h.carry hr (.refl _) rfl rfl
    | ok rev =>
      obtain ⟨hcarries, -⟩ := Room.replace_ok heq
      rw [tellReplaced, setRoom_get, if_pos rfl]
      exact h.tells hr hcarries

end Rooms

end FusionLocalServer.Whiteboards
