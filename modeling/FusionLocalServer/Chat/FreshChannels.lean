import FusionLocalServer.Chat.Channels
import FusionLocalServer.Lib.Run
import FusionLocalServer.Lib.Serial

/-!
# New channels are empty

The life of a project's chat: the operations of the store, each meeting with any failures,
restarts, a file that becomes undecodable, the project's data removed, and older backups put
back. The ids of the channels come from a counter in one file, and the messages are in logs
named by the ids (`numbered`); so a new channel is empty as long as the counter is above the
logs there are. As with the boards of a project, it can fall behind where it starts over and
where a backup sets it back, and `Above` keeps these out.
-/

namespace FusionLocalServer.Chat

open Lib Std

theorem channelID_injective {a b : Int} (h : channelID a = channelID b) : a = b :=
  Lib.formatInt_injective (String.ofList_injective (String.append_right_inj _ |>.mp h))

/-- A file as the store makes it: the channels have ids of numbers below the counter. -/
structure Listed (pm : ProjectMeta) : Prop where
  version : pm.version = metaVersion
  channels : ∀ c ∈ pm.channels, ∃ n, c.id = channelID n ∧ n < pm.nextChannelID

namespace Listed

variable {pm : ProjectMeta}

/-- Nothing else of the file matters. -/
theorem congr (h : Listed pm) {new : ProjectMeta} (hversion : new.version = metaVersion)
    (hchannels : new.channels = pm.channels) (hnext : new.nextChannelID = pm.nextChannelID) :
    Listed new :=
  ⟨hversion, by rw [hchannels, hnext]; exact h.channels⟩

theorem addChannel (h : Listed pm) (c : ChannelDef) : Listed (Project.addChannel pm c) := by
  refine ⟨h.version, fun c' hc => ?_⟩
  show ∃ n, _ ∧ n < pm.nextChannelID + 1
  rcases List.mem_append.mp hc with hc | hc
  · obtain ⟨n, hid, hlt⟩ := h.channels c' hc
    exact ⟨n, hid, by omega⟩
  · cases List.mem_singleton.mp hc
    exact ⟨_, rfl, by omega⟩

/-- A change that leaves the channels their ids. -/
theorem onChannel (h : Listed pm) (id : String) {f : ChannelDef → ChannelDef}
    (hf : ∀ c, (f c).id = c.id) : Listed (pm.onChannel id f) := by
  refine ⟨h.version, fun c hc => ?_⟩
  obtain ⟨i, hi⟩ := List.mem_iff_getElem?.mp hc
  rw [show (pm.onChannel id f).channels = pm.channels.modify _ f from rfl,
    List.getElem?_modify] at hi
  obtain ⟨old, hold, rfl⟩ := Option.map_eq_some_iff.mp hi
  have hlisted := h.channels old (List.mem_of_getElem? hold)
  split
  · rw [hf old]
    exact hlisted
  · exact hlisted

end Listed

/-- The counter on disk. -/
def counterOf : Option StoredMeta → Option Int
  | some (.file pm) => some pm.nextChannelID
  | some .damaged => none
  | none => none

namespace Project

/-- The project as a counter and numbered files. -/
def numbered (p : Project) : Lib.Numbered where
  memory := p.pm.map ProjectMeta.nextChannelID
  disk := counterOf p.disk
  files := { n | (p.logs[channelID n]?).isSome }

/-- What holds of a project in all its life. -/
structure Sound (p : Project) : Prop where
  pm : ∀ pm, p.pm = some pm → Listed pm
  disk : ∀ pm, p.disk = some (.file pm) → Listed pm
  loaded : ∀ id : String, (p.loaded[id]?).isSome → (p.logs[id]?).isSome
  ahead : p.numbered.Ahead

/-- Loading the project starts over: there is no file, or none that can be used. -/
def Recovers (p : Project) (env : MetaEnv) : Prop :=
  p.pm = none ∧ env.readFails = false ∧
    ∀ pm, p.disk = some (.file pm) → pm.version ≤ metaVersion ∧ ¬ pm.Migrates env

variable {p q : Project} {env : MetaEnv} {projectID : String} {pm : ProjectMeta}

/-- What `loadMeta` makes of what is on disk. -/
inductive Loads (env : MetaEnv) (disk : Option StoredMeta) :
    Option StoredMeta × Except Err ProjectMeta → Prop
  | failed (e : Err) : Loads env disk (disk, .error e)
  | file {pm : ProjectMeta} : disk = some (.file pm) →
      Loads env disk (disk, .ok (repairMeta env pm))
  | fresh {disk' : Option StoredMeta} {pm : ProjectMeta} : env.readFails = false →
      (∀ pm, disk = some (.file pm) → pm.version ≤ metaVersion ∧ ¬ pm.Migrates env) →
      (disk' = disk ∨ disk' = none) →
      pm.version = metaVersion ∧ pm.nextChannelID = 1 ∧ pm.channels = [] →
      Loads env disk (disk', .ok pm)

theorem loads (env : MetaEnv) (projectID : String) (disk : Option StoredMeta) :
    Loads env disk (loadMeta env projectID disk) := by
  have haside : setAside env disk = disk ∨ setAside env disk = none := by
    unfold setAside
    split
    · exact .inl rfl
    · exact .inr rfl
  unfold loadMeta
  by_cases hread : env.readFails = true
  · rw [if_pos hread]
    exact .failed _
  · rw [if_neg hread]
    have hread' : env.readFails = false := Bool.eq_false_iff.mpr hread
    cases disk with
    | none => exact .fresh hread' (fun _ h => (nomatch h)) (.inl rfl) ⟨rfl, rfl, rfl⟩
    | some stored =>
      cases stored with
      | damaged => exact .fresh hread' (fun _ h => (nomatch h)) haside ⟨rfl, rfl, rfl⟩
      | file pm =>
        dsimp only
        by_cases hfuture : metaVersion < pm.version
        · rw [if_pos hfuture]
          exact .failed _
        · rw [if_neg hfuture]
          by_cases hmigrates : pm.Migrates env
          · rw [if_pos hmigrates]
            exact .file rfl
          · rw [if_neg hmigrates]
            refine .fresh hread' (fun pm' h => ?_) haside ⟨rfl, rfl, rfl⟩
            cases h
            exact ⟨Int.not_lt.mp hfuture, hmigrates⟩

/-- The project with a file that was saved. -/
theorem Sound.saved (h : Sound p) {new : ProjectMeta} (hlisted : Listed new)
    (hahead : Lib.Numbered.Ahead ⟨some new.nextChannelID, some new.nextChannelID, p.numbered.files⟩) :
    Sound { p with pm := some new, disk := some (.file new) } := by
  refine ⟨?_, ?_, h.loaded, hahead⟩
  · rintro _ ⟨⟩
    exact hlisted
  · rintro _ ⟨⟩
    exact hlisted

theorem Sound.project (h : Sound p) (env : MetaEnv) (projectID : String)
    (hrecovers : p.Recovers env → p.logs = ∅) :
    Sound (p.project env projectID).1 ∧
      ∀ pm, (p.project env projectID).2 = .ok pm →
        (p.project env projectID).1.pm = some pm := by
  unfold Project.project
  cases hpm : p.pm with
  | some pm =>
    refine ⟨h, fun pm' heq => ?_⟩
    cases heq
    exact hpm
  | none =>
    dsimp only
    have hmemory : p.numbered.memory = none := by
      show p.pm.map _ = none
      rw [hpm]
      rfl
    have hloads := loads env projectID p.disk
    cases hload : loadMeta env projectID p.disk with
    | mk disk result =>
      rw [hload] at hloads
      cases hloads with
      | failed e =>
        dsimp only
        rw [← hpm]
        exact ⟨h, fun pm heq => (nomatch heq)⟩
      | @file pm hdisk =>
        dsimp only
        split
        · rw [← hpm]
          exact ⟨h, fun pm heq => (nomatch heq)⟩
        · have hlisted := h.disk pm hdisk
          have hcount : p.numbered.disk = some pm.nextChannelID := by
            show counterOf p.disk = _
            rw [hdisk]
            rfl
          have hmove := h.ahead.move (.load hmemory hcount)
          rw [hcount] at hmove
          constructor
          · exact Sound.saved (p := { p with loaded := ∅ })
              ⟨h.pm, h.disk, fun _ hsome => absurd hsome (by simp), h.ahead⟩
              (hlisted.congr rfl rfl rfl) hmove
          · intro pm' heq
            cases heq
            rfl
      | @fresh disk' pm hread hunusable hdisk hfresh =>
        have hrec : p.Recovers env := ⟨hpm, hread, hunusable⟩
        dsimp only
        -- what is left on disk is of no use either
        have hnofile : ∀ pm, disk ≠ some (.file pm) := by
          rintro pm rfl
          rcases hdisk with hsame | hnone
          · exact (hunusable pm hsame.symm).2 (.inl (h.disk pm hsame.symm).version)
          · cases hnone
        have hcounter : counterOf disk = none := by
          cases disk with
          | none => rfl
          | some stored =>
            cases stored with
            | damaged => rfl
            | file pm => exact absurd rfl (hnofile pm)
        split
        · constructor
          · refine ⟨fun pm hsome => (nomatch hsome), fun pm hfile => absurd hfile (hnofile pm),
              h.loaded, ?_⟩
            have hmove := h.ahead.move .damage
            rw [hmemory] at hmove
            show Lib.Numbered.Ahead ⟨none, counterOf disk, p.numbered.files⟩
            rw [hcounter]
            exact hmove
          · exact fun pm heq => (nomatch heq)
        · have hempty : p.numbered.files = ∅ := by
            refine Set.eq_empty_iff_forall_notMem.mpr fun n hn => ?_
            change (p.logs[channelID n]?).isSome = true at hn
            rw [hrecovers hrec, ExtTreeMap.getElem?_empty] at hn
            cases hn
          have hmove := (h.ahead.move (.recover hmemory hempty)).move (.save rfl)
          obtain ⟨hversion, hnext, hnone⟩ := hfresh
          rw [← hnext] at hmove
          constructor
          · exact Sound.saved (p := { p with loaded := ∅ })
              ⟨h.pm, h.disk, fun _ hsome => absurd hsome (by simp), h.ahead⟩
              ⟨hversion, fun c hc => (nomatch hnone ▸ hc)⟩ hmove
          · intro pm' heq
            cases heq
            rfl

theorem Sound.onMeta {α : Type} {go : Project → ProjectMeta → Project × Except Err α}
    (h : Sound p) (hrecovers : p.Recovers env → p.logs = ∅)
    (hgo : ∀ q pm, Sound q → q.pm = some pm → Sound (go q pm).1) :
    Sound (p.onMeta env projectID go).1 := by
  obtain ⟨hsound, hpm⟩ := h.project env projectID hrecovers
  unfold Project.onMeta
  cases hproject : p.project env projectID with
  | mk q result =>
    rw [hproject] at hsound hpm
    cases result with
    | error e => exact hsound
    | ok pm => exact hgo q pm hsound (hpm pm rfl)

variable (env) in
/-- A file that is saved counts on from the one in memory. -/
theorem Sound.commit {α : Type} (h : Sound p) {old new : ProjectMeta} (hold : p.pm = some old)
    (hlisted : Listed new)
    (hnext : new.nextChannelID = old.nextChannelID ∨ new.nextChannelID = old.nextChannelID + 1)
    (a : α) : Sound (p.commit env old new a).1 := by
  have hmemory : p.numbered.memory = some old.nextChannelID := by
    show p.pm.map _ = _
    rw [hold]
    rfl
  unfold Project.commit
  split
  · rw [← hold]
    exact h
  · split
    · -- the stamp is all that changed
      refine ⟨?_, h.disk, h.loaded, ?_⟩
      · rintro _ ⟨⟩
        have hlisted := h.pm old hold
        exact hlisted.congr hlisted.version rfl rfl
      · show Lib.Numbered.Ahead ⟨some old.nextChannelID, _, _⟩
        rw [← hmemory]
        exact h.ahead
    · refine h.saved (hlisted.congr hlisted.version rfl rfl) ?_
      show Lib.Numbered.Ahead ⟨some new.nextChannelID, some new.nextChannelID, p.numbered.files⟩
      rcases hnext with hsame | hnext
      · rw [hsame]
        have hmove := h.ahead.move (.save hmemory)
        rw [hmemory] at hmove
        exact hmove
      · rw [hnext]
        exact h.ahead.move (.issue hmemory)

variable (env) in
theorem Sound.ensureRoot (h : Sound p) (hpm : p.pm = some pm) :
    Sound (p.ensureRoot env pm).1 ∧ ∀ pm', (p.ensureRoot env pm).2 = .ok pm' →
      (p.ensureRoot env pm).1.pm = some pm' := by
  unfold Project.ensureRoot
  split
  · refine ⟨h, fun pm' heq => ?_⟩
    cases heq
    exact hpm
  · have hcommit := h.commit env hpm ((h.pm pm hpm).addChannel
      { id := "", name := RootChannelName, isRoot := true, createdAt := env.now }) (.inr rfl) ()
    dsimp only
    revert hcommit
    unfold Project.commit
    split
    · exact fun hcommit => ⟨hcommit, fun _ heq => (nomatch heq)⟩
    · split
      · exact fun hcommit => ⟨hcommit, fun _ heq => (nomatch heq)⟩
      · refine fun hcommit => ⟨hcommit, fun pm' heq => ?_⟩
        cases heq
        rfl

/-- Making a channel keeps the project sound, and there is no log for the channel. -/
theorem Sound.createChannel (h : Sound p) (hrecovers : p.Recovers env → p.logs = ∅)
    (name topic createdBy : String) (isPrivate : Bool) (memberIDs : List String) :
    Sound (p.createChannel env projectID name topic createdBy isPrivate memberIDs).1 ∧
      ∀ c, (p.createChannel env projectID name topic createdBy isPrivate memberIDs).2 = .ok c →
        (p.createChannel env projectID name topic createdBy isPrivate memberIDs).1.logs[c.id]? =
          none := by
  unfold Project.createChannel Project.onMeta
  dsimp only
  split
  · exact ⟨h, fun _ heq => (nomatch heq)⟩
  · obtain ⟨hproject, hpm⟩ := h.project env projectID hrecovers
    cases hload : p.project env projectID with
    | mk q result =>
      rw [hload] at hproject hpm
      cases result with
      | error e => exact ⟨hproject, fun _ heq => (nomatch heq)⟩
      | ok pm =>
        obtain ⟨hroot, hpm'⟩ := hproject.ensureRoot env (hpm pm rfl)
        dsimp only
        cases hensure : q.ensureRoot env pm with
        | mk q' result =>
          rw [hensure] at hroot hpm'
          cases result with
          | error e => exact ⟨hroot, fun _ heq => (nomatch heq)⟩
          | ok pm' =>
            have hold := hpm' pm' rfl
            have hfresh := Option.not_isSome_iff_eq_none.mp
              (hroot.ahead.fresh (congrArg (Option.map ProjectMeta.nextChannelID) hold))
            dsimp only
            split
            · exact ⟨hroot, fun _ heq => (nomatch heq)⟩
            · refine ⟨hroot.commit env hold ((hroot.pm pm' hold).addChannel _) (.inr rfl) _, ?_⟩
              unfold Project.commit
              split
              · exact fun _ heq => (nomatch heq)
              · split
                · exact fun _ heq => (nomatch heq)
                · intro c heq
                  cases heq
                  exact hfresh

/-- The log of a channel that there is. -/
theorem Sound.withChannel (h : Sound p) (hpm : p.pm = some pm) {id : String} {c : ChannelDef}
    (hfind : findChannel pm id = some c) (ch : Channel) : Sound (p.withChannel id ch) := by
  obtain ⟨n, hid, hlt⟩ := (h.pm pm hpm).channels c (List.mem_of_find?_eq_some hfind)
  have hname : id = channelID n := by
    have hsame : c.id = id := by simpa using List.find?_some hfind
    exact hsame.symm.trans hid
  have hmemory : p.numbered.memory = some pm.nextChannelID := by
    show p.pm.map _ = _
    rw [hpm]
    rfl
  refine ⟨h.pm, h.disk, fun other hsome => ?_, ?_⟩
  · -- what is loaded has a log
    unfold Project.withChannel at hsome
    dsimp only at hsome
    show ((if p.logs[id]?.isSome ∨ ch.loaded.isSome then p.logs.insert id ch.file
      else p.logs)[other]?).isSome = true
    cases hloaded : ch.loaded with
    | none =>
      rw [hloaded] at hsome
      have hlog := h.loaded other hsome
      split
      · rw [Table.get_insert]
        split
        · rfl
        · exact hlog
      · exact hlog
    | some cs =>
      rw [hloaded] at hsome
      rw [if_pos (.inr rfl), Table.get_insert]
      dsimp only at hsome
      rw [Table.get_insert] at hsome
      split
      · rfl
      · next hne =>
        rw [if_neg hne] at hsome
        exact h.loaded other hsome
  · by_cases hopen : p.logs[id]?.isSome ∨ ch.loaded.isSome
    · have hmove := h.ahead.move (.write hmemory hlt)
      have hfiles : (p.withChannel id ch).numbered =
          { p.numbered with files := Insert.insert n p.numbered.files } := by
        unfold numbered Project.withChannel
        dsimp only
        rw [if_pos hopen]
        congr 1
        ext k
        show ((p.logs.insert id ch.file)[channelID k]?).isSome = true ↔ k = n ∨ _
        rw [Table.get_insert, hname]
        by_cases hk : channelID n = channelID k
        · rw [if_pos hk]
          exact ⟨fun _ => .inl (channelID_injective hk).symm, fun _ => rfl⟩
        · rw [if_neg hk]
          constructor
          · exact fun hsome => .inr hsome
          · exact fun hor => hor.resolve_left fun heq => hk (heq ▸ rfl)
      rw [hfiles]
      exact hmove
    · have hsame : (p.withChannel id ch).numbered = p.numbered := by
        unfold numbered Project.withChannel
        dsimp only
        rw [if_neg hopen]
      rw [hsame]
      exact h.ahead

theorem Sound.onMessages (h : Sound p) (hrecovers : p.Recovers env → p.logs = ∅) (id : String)
    (go : Channel → Channel) : Sound (p.onMessages env projectID id go).1 := by
  refine h.onMeta hrecovers fun q pm hq hpm => ?_
  split
  · exact hq
  · next hfind => exact hq.withChannel hpm hfind _

/-- An operation on a channel leaves its id alone. -/
structure KeepsID (op : ChannelOp) : Prop where
  refused : ∀ pm c e f, op pm c = .error (e, f) → ∀ c, (f c).id = c.id
  done : ∀ pm c f, op pm c = .ok (some f) → ∀ c, (f c).id = c.id

theorem keepsID_updateChannel (env : MetaEnv) (name topic : Option String) :
    KeepsID (updateChannel env name topic) := by
  constructor
  · intro pm c e f h
    unfold updateChannel at h
    dsimp only at h
    split at h
    · cases h
      exact fun _ => rfl
    · split at h
      · cases h
        exact fun _ => rfl
      · cases h
  · intro pm c f h
    unfold updateChannel at h
    dsimp only at h
    split at h
    · cases h
    · split at h
      · cases h
      · cases h
        exact fun _ => rfl

theorem keepsID_archiveChannel (env : MetaEnv) : KeepsID (archiveChannel env) := by
  constructor
  · intro pm c e f h
    unfold archiveChannel at h
    split at h
    · cases h
      exact fun _ => rfl
    · cases h
  · intro pm c f h
    unfold archiveChannel at h
    split at h
    · cases h
    · split at h
      · cases h
      · cases h
        exact fun _ => rfl

/-- A change of the members, once the channel is seen to be private. -/
theorem keepsID_members {change : ChannelDef → Option (ChannelDef → ChannelDef)}
    (hchange : ∀ c f, change c = some f → ∀ c, (f c).id = c.id) :
    KeepsID fun _ c => (checkPrivate c).bind fun _ => .ok (change c) := by
  constructor
  · intro pm c e f h
    unfold checkPrivate at h
    split at h
    · cases h
    · cases h
      exact fun _ => rfl
  · intro pm c f h
    unfold checkPrivate at h
    split at h
    · exact hchange c f (Except.ok.inj h)
    · cases h

theorem keepsID_addChannelMember (env : MetaEnv) (userID addedBy : String) :
    KeepsID (addChannelMember env userID addedBy) := by
  refine keepsID_members fun c f h => ?_
  split at h
  · cases h
  · cases h
    exact fun _ => rfl

theorem keepsID_removeChannelMember (userID : String) : KeepsID (removeChannelMember userID) := by
  refine keepsID_members fun c f h => ?_
  obtain ⟨i, -, rfl⟩ := Option.map_eq_some_iff.mp h
  exact fun _ => rfl

theorem Sound.onChannel (h : Sound p) (hrecovers : p.Recovers env → p.logs = ∅) (id : String)
    {op : ChannelOp} (hop : KeepsID op) : Sound (p.onChannel env projectID id op).1 := by
  refine h.onMeta hrecovers fun q pm hq hpm => ?_
  split
  · exact hq
  · next c hfind =>
    have hlisted := hq.pm pm hpm
    cases hresult : op pm c with
    | error refusal =>
      obtain ⟨e, f⟩ := refusal
      have hkeeps := hlisted.onChannel id (hop.refused pm c e f hresult)
      refine ⟨?_, hq.disk, hq.loaded, ?_⟩
      · rintro _ ⟨⟩
        exact hkeeps
      · have hmemory : q.numbered.memory = some pm.nextChannelID := by
          show q.pm.map _ = _
          rw [hpm]
          rfl
        show Lib.Numbered.Ahead ⟨some pm.nextChannelID, _, _⟩
        rw [← hmemory]
        exact hq.ahead
    | ok change =>
      cases change with
      | none => exact hq
      | some f => exact hq.commit env hpm (hlisted.onChannel id (hop.done pm c f hresult)) (.inl rfl) _

end Project

/-! ## The life of a project -/

/-- A project, and the backups there are of it. -/
structure Life where
  project : Project := {}
  copies : List Project := []

namespace Life

/-- The operations on a channel that is there. -/
inductive ChannelEdit where
  | update (name topic : Option String)
  | archive
  | addMember (userID addedBy : String)
  | removeMember (userID : String)

def ChannelEdit.op (env : MetaEnv) : ChannelEdit → Project.ChannelOp
  | .update name topic => Project.updateChannel env name topic
  | .archive => Project.archiveChannel env
  | .addMember userID addedBy => Project.addChannelMember env userID addedBy
  | .removeMember userID => Project.removeChannelMember userID

inductive Event where
  /-- `EnsureRoot` and `Channels`. -/
  | ensureRoot (env : MetaEnv)
  | create (env : MetaEnv) (name topic createdBy : String) (isPrivate : Bool)
    (memberIDs : List String)
  | edit (env : MetaEnv) (id : String) (e : ChannelEdit)
  | readMessages (env : MetaEnv) (id : String) (chEnv : Env)
  | changeMessages (env : MetaEnv) (id : String) (chEnv : Env) (op : Op)
  /-- `DeleteProject`, which may fail and leave some of the files. -/
  | deleteProject (index : Bool) (which : String → Bool)
  | restart
  /-- The file on disk becomes undecodable. -/
  | damage
  | backup
  /-- A backup is put back, the file with the channels or not, and some of the logs. -/
  | restore (i : Nat) (index : Bool) (which : String → Bool)

/-- The events that may load the project. -/
def Event.env : Event → Option MetaEnv
  | .ensureRoot env | .create env .. | .edit env .. | .readMessages env ..
  | .changeMessages env .. => some env
  | _ => none

/-- The files of a backup over the ones there are. -/
def overlay (p c : Project) (index : Bool) (which : String → Bool) : Project where
  disk := if index then c.disk.or p.disk else p.disk
  logs := p.logs ∪ c.logs.filter fun id _ => which id

def restore (l : Life) (i : Nat) (index : Bool) (which : String → Bool) : Life :=
  match l.copies[i]? with
  | none => l
  | some c => { l with project := overlay l.project c index which }

def exec (projectID : String) (l : Life) : Event → Life
  | .ensureRoot env =>
    { l with project := (l.project.onMeta env projectID fun p pm => p.ensureRoot env pm).1 }
  | .create env name topic createdBy isPrivate memberIDs =>
    { l with project :=
        (l.project.createChannel env projectID name topic createdBy isPrivate memberIDs).1 }
  | .edit env id e => { l with project := (l.project.onChannel env projectID id (e.op env)).1 }
  | .readMessages env id chEnv =>
    { l with project := (l.project.readMessages env projectID id chEnv).1 }
  | .changeMessages env id chEnv op =>
    { l with project := (l.project.changeMessages env projectID id chEnv op).1 }
  | .deleteProject index which =>
    { l with project := { disk := if index then l.project.disk else none
                          logs := l.project.logs.filter fun id _ => which id } }
  | .restart => { l with project := l.project.reset }
  | .damage => { l with project := { l.project with disk := l.project.disk.map fun _ => .damaged } }
  | .backup => { l with copies := l.copies ++ [l.project] }
  | .restore i index which => l.restore i index which

def Happens (projectID : String) (l : Life) (e : Event) (l' : Life) : Prop :=
  l.exec projectID e = l'

/-- The counter stays above the logs: it starts over only when there are none, and a backup
that is put back has one that is above all that are there then. -/
def Above (l : Life) (e : Event) : Prop :=
  (∀ env, e.env = some env → l.project.Recovers env → l.project.logs = ∅) ∧
    ∀ i index which c pm, e = .restore i index which → l.copies[i]? = some c →
      (overlay l.project c index which).disk = some (.file pm) →
      ∀ n, ((overlay l.project c index which).logs[channelID n]?).isSome → n < pm.nextChannelID

structure Kept (l : Life) : Prop where
  project : l.project.Sound
  copies : ∀ c ∈ l.copies, ∀ pm, c.disk = some (.file pm) → Listed pm

theorem Kept.start : Kept {} := by
  refine ⟨⟨fun _ h => (nomatch h), fun _ h => (nomatch h), ?_, ?_, ?_, ?_⟩, fun _ h => (nomatch h)⟩
  · intro id h
    rw [show ({} : Life).project.loaded = ∅ from rfl, ExtTreeMap.getElem?_empty] at h
    cases h
  · exact fun _ h => (nomatch h)
  · exact fun _ h => (nomatch h)
  · exact fun _ _ h => (nomatch h)

theorem not_loaded {id : String} {P : Prop}
    (h : ((∅ : ExtTreeMap String ChannelState)[id]?).isSome = true) : P := by
  rw [ExtTreeMap.getElem?_empty] at h
  cases h

theorem Kept.overlay {l : Life} (h : Kept l) {c : Project} (hc : c ∈ l.copies) {index : Bool}
    {which : String → Bool}
    (habove : ∀ pm, (overlay l.project c index which).disk = some (.file pm) →
      ∀ n, ((Life.overlay l.project c index which).logs[channelID n]?).isSome →
        n < pm.nextChannelID) :
    (Life.overlay l.project c index which).Sound := by
  refine ⟨fun _ h => (nomatch h), fun pm hpm => ?_, fun id h => not_loaded h, ?_⟩
  · change (if index then c.disk.or l.project.disk else l.project.disk) = some (.file pm) at hpm
    split at hpm
    · rcases Option.or_eq_some_iff.mp hpm with hdisk | ⟨-, hdisk⟩
      · exact h.copies c hc pm hdisk
      · exact h.project.disk pm hdisk
    · exact h.project.disk pm hpm
  · refine h.project.ahead.move (.restore fun n hn k hk => ?_)
    change counterOf (Life.overlay l.project c index which).disk = some n at hn
    cases hdisk : (Life.overlay l.project c index which).disk with
    | none =>
      rw [hdisk] at hn
      cases hn
    | some stored =>
      rw [hdisk] at hn
      cases stored with
      | damaged => cases hn
      | file pm =>
        cases hn
        exact habove pm hdisk k hk

theorem Kept.exec {projectID : String} {l : Life} (h : Kept l) {e : Event} (hok : Above l e) :
    Kept (l.exec projectID e) := by
  have hp := h.project
  cases e with
  | ensureRoot env =>
    exact ⟨hp.onMeta (hok.1 env rfl) fun q pm hq hpm => (hq.ensureRoot env hpm).1, h.copies⟩
  | create env name topic createdBy isPrivate memberIDs =>
    exact ⟨(hp.createChannel (hok.1 env rfl) ..).1, h.copies⟩
  | edit env id e =>
    refine ⟨hp.onChannel (hok.1 env rfl) id ?_, h.copies⟩
    cases e with
    | update name topic => exact Project.keepsID_updateChannel env name topic
    | archive => exact Project.keepsID_archiveChannel env
    | addMember userID addedBy => exact Project.keepsID_addChannelMember env userID addedBy
    | removeMember userID => exact Project.keepsID_removeChannelMember userID
  | readMessages env id chEnv => exact ⟨hp.onMessages (hok.1 env rfl) id _, h.copies⟩
  | changeMessages env id chEnv op =>
    refine ⟨?_, h.copies⟩
    show (l.project.changeMessages env projectID id chEnv op).1.Sound
    unfold Project.changeMessages
    split
    · exact hp
    · exact hp.onMessages (hok.1 env rfl) id _
  | deleteProject index which =>
    refine ⟨⟨fun _ h => (nomatch h), fun pm hpm => ?_, fun id h => not_loaded h, ?_⟩, h.copies⟩
    · change (if index then l.project.disk else none) = some (.file pm) at hpm
      split at hpm
      · exact hp.disk pm hpm
      · cases hpm
    · have hsub : { n | ((l.project.logs.filter fun id _ => which id)[channelID n]?).isSome } ⊆
          l.project.numbered.files := by
        intro n hn
        change ((l.project.logs.filter fun id _ => which id)[channelID n]?).isSome = true at hn
        rw [ExtTreeMap.getElem?_filter'] at hn
        obtain ⟨log, hlog⟩ := Option.isSome_iff_exists.mp hn
        exact Option.isSome_iff_exists.mpr ⟨log, (Option.filter_eq_some_iff.mp hlog).1⟩
      have hmove := (hp.ahead.move .forget).move (.remove hsub)
      cases index with
      | true => exact hmove
      | false => exact hmove.move .damage
  | restart => exact ⟨⟨fun _ h => (nomatch h), hp.disk, fun id h => not_loaded h,
      hp.ahead.move .forget⟩, h.copies⟩
  | damage =>
    refine ⟨⟨hp.pm, fun pm hpm => ?_, hp.loaded, ?_⟩, h.copies⟩
    · change l.project.disk.map _ = _ at hpm
      obtain ⟨_, -, heq⟩ := Option.map_eq_some_iff.mp hpm
      cases heq
    · have hnone : counterOf (l.project.disk.map fun _ => StoredMeta.damaged) = none := by
        cases l.project.disk <;> rfl
      show Lib.Numbered.Ahead ⟨_, counterOf (l.project.disk.map fun _ => StoredMeta.damaged), _⟩
      rw [hnone]
      exact hp.ahead.move .damage
  | backup =>
    refine ⟨hp, fun c hc pm hpm => ?_⟩
    rcases List.mem_append.mp hc with hc | hc
    · exact h.copies c hc pm hpm
    · cases List.mem_singleton.mp hc
      exact hp.disk pm hpm
  | restore i index which =>
    show Kept (l.restore i index which)
    unfold restore
    cases hget : l.copies[i]? with
    | none => exact h
    | some c =>
      have hc := List.mem_of_getElem? hget
      exact ⟨h.overlay hc fun pm hpm => hok.2 i index which c pm rfl hget hpm, h.copies⟩

/-- An empty log has no records. -/
theorem replayLog_nil {fault : Option LoadFault} (h : fault ≠ some .read) :
    replayLog { bytes := [], bak := none } fault = ({ bytes := [], bak := none }, .ok []) := by
  unfold replayLog
  rw [if_neg h]
  rfl

/-- A channel without a log has no messages. -/
theorem msgs_of_no_log {ch : Channel} (hloaded : ch.loaded = none)
    (hfile : ch.file = { bytes := [], bak := none }) {chEnv : Env} {cs : ChannelState}
    (h : (ch.channelState chEnv).2 = .ok cs) : cs.msgs = [] := by
  unfold Channel.channelState at h
  rw [hloaded, hfile] at h
  by_cases hread : chEnv.load = some .read
  · unfold replayLog at h
    rw [if_pos hread] at h
    cases h
  · rw [replayLog_nil hread] at h
    dsimp only at h
    split at h
    · cases h
    · cases h
      rfl

def calm : MetaEnv := { now := 0 }

/-- A private channel is made. -/
def makeChannel : Event := .create calm "plans" "" "u" true []

/-- The first message in it. -/
def sayHello : Event := .changeMessages calm "c2" { now := 0, load := none, write := .full }
  (.create "u" "U" "m1" "hello" 0)

theorem above_of_pm {l : Life} {pm : ProjectMeta} (hpm : l.project.pm = some pm) {e : Event}
    (he : ∀ i index which, e ≠ .restore i index which) : Above l e :=
  ⟨fun _ _ hrec => (nomatch hpm.symm.trans hrec.1), fun i index which _ _ h => absurd h (he i index which)⟩

/-- The project with something said in its private channel. -/
def spokenLife : Life := Life.exec "p" (Life.exec "p" {} makeChannel) sayHello

def channelOf (n : Int) (name : String) : ChannelDef :=
  { id := channelID n, name, isPrivate := true, createdBy := "u", createdAt := 0
    members := Project.firstMembers "u" [] 0 }

theorem exists_of_msgs {result : Except Err ChannelState} {bodies : List String}
    (h : (match result with
      | .ok cs => cs.msgs.map (·.body)
      | .error _ => []) = bodies) (hne : bodies ≠ []) :
    ∃ cs, result = .ok cs ∧ cs.msgs.map (·.body) = bodies := by
  cases result with
  | error e => exact absurd h.symm hne
  | ok cs => exact ⟨cs, rfl, h⟩

end Life

end FusionLocalServer.Chat
