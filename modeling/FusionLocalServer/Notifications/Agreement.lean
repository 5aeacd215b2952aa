import FusionLocalServer.Notifications.Store

/-!
# Memory and disk

The store means disk to match memory after every call. A reload repairs the counter, and
reads the texts from what the file says, so that a file reads back as it was saved exactly
when its counter is positive and its links are text. What goes wrong beside that is the
marking of entries as read when the save fails.
-/

namespace Notifications

open Lib (incr64 trimSpace Throughout throughout_iff)
open FusionLocalServer.Storage

/-! ## Reloading -/

/-- The inbox that a file is. -/
def UserFile.inbox (uf : UserFile) : Int × List Notification := (uf.nextID, uf.notifications)

/-- The inbox that reloading the user's file yields. -/
def Reloads (userKey : String) (disk : Disk) (inbox : Int × List Notification) : Prop :=
  ∀ env : Env, env.readFails = false →
    ((loadFile env userKey disk).2.map UserFile.inbox) = .ok inbox

/-- What a load that can read the file makes of it. -/
inductive Loads (userKey : String) (disk : Disk) : Prop where
  | empty (h : ∀ env : Env, env.readFails = false →
      loadFile env userKey disk = (.absent, .ok (freshFile env userKey)))
  | newer (h : ∀ env : Env, env.readFails = false →
      loadFile env userKey disk =
        (disk, .error ⟨.futureVersion, "notifications: data written by a newer version", []⟩))
  | current (uf : UserFile) (hfile : disk = .file uf) (hversion : uf.version = fileVersion)
      (h : ∀ env : Env, env.readFails = false →
        loadFile env userKey disk = (disk, .ok (repairFile env userKey uf.written)))

theorem loads (userKey : String) (disk : Disk) : Loads userKey disk := by
  cases disk with
  | absent =>
    refine .empty fun env hread => ?_
    unfold loadFile
    rw [hread]
    rfl
  | damaged =>
    refine .empty fun env hread => ?_
    unfold loadFile
    rw [hread]
    rfl
  | file uf =>
    have hload : ∀ env : Env, env.readFails = false → loadFile env userKey (.file uf) =
        if fileVersion < uf.version then
          (.file uf, .error ⟨.futureVersion, "notifications: data written by a newer version", []⟩)
        else if uf.version < fileVersion then (.absent, .ok (freshFile env userKey))
        else (.file uf, .ok (repairFile env userKey uf.written)) := by
      intro env hread
      unfold loadFile
      rw [hread]
      rfl
    by_cases hnew : fileVersion < uf.version
    · exact .newer fun env hread => (hload env hread).trans (if_pos hnew)
    by_cases hold : uf.version < fileVersion
    · exact .empty fun env hread => (hload env hread).trans ((if_neg hnew).trans (if_pos hold))
    · exact .current uf rfl (Int.le_antisymm (Int.not_lt.mp hnew) (Int.not_lt.mp hold))
        fun env hread => (hload env hread).trans ((if_neg hnew).trans (if_neg hold))

theorem loadFile_readFails {env : Env} (hread : env.readFails = true) (userKey : String)
    (disk : Disk) : ∃ e, loadFile env userKey disk = (disk, .error e) := by
  unfold loadFile
  rw [hread]
  exact ⟨_, rfl⟩

theorem reloads_absent (userKey : String) : Reloads userKey .absent (1, []) := by
  intro env hread
  unfold loadFile
  rw [hread]
  rfl

theorem reloads_file (userKey : String) {uf : UserFile} (hversion : uf.version = fileVersion) :
    Reloads userKey (.file uf)
      (if uf.nextID < 1 then 1 else uf.nextID, uf.notifications.map Notification.written) := by
  intro env hread
  unfold loadFile
  rw [hread]
  dsimp only
  rw [if_neg (by decide), hversion, if_neg (Int.lt_irrefl _), if_neg (Int.lt_irrefl _)]
  rfl

/-- A file reloads as one inbox only. -/
theorem Reloads.unique {userKey : String} {disk : Disk} {inbox inbox' : Int × List Notification}
    (h : Reloads userKey disk inbox) (h' : Reloads userKey disk inbox') : inbox = inbox' :=
  Except.ok.inj ((h { now := 0 } rfl).symm.trans (h' { now := 0 } rfl))

theorem Notification.isText_written (n : Notification) : IsText n.written.ref :=
  isText_encodeUtf8 _

theorem Notification.written_iff {n : Notification} : n.written = n ↔ IsText n.ref :=
  ⟨fun h => h ▸ n.isText_written, written_of_isText⟩

theorem map_written_iff {ns : List Notification} :
    ns.map Notification.written = ns ↔ ∀ n ∈ ns, IsText n.ref := by
  refine ⟨fun h n hn => ?_, fun h => ?_⟩
  · rw [← h] at hn
    obtain ⟨n', -, rfl⟩ := List.mem_map.mp hn
    exact n'.isText_written
  · exact (List.map_congr_left fun n hn => Notification.written_of_isText (h n hn)).trans
      (List.map_id ns)

/-- An inbox that comes back as it is when it is written. -/
structure Writable (inbox : Int × List Notification) : Prop where
  counted : 1 ≤ inbox.1
  texts : ∀ n ∈ inbox.2, IsText n.ref

/-- A saved file reloads as what was saved exactly when the counter and the texts are in
order. -/
theorem reloads_saved_iff {userKey : String} {uf : UserFile}
    (hversion : uf.version = fileVersion) :
    Reloads userKey (.file uf) uf.inbox ↔ Writable uf.inbox := by
  have hfile := reloads_file userKey hversion
  constructor
  · intro h
    obtain ⟨hcount, htexts⟩ := Prod.mk.inj (hfile.unique h)
    refine ⟨?_, map_written_iff.mp htexts⟩
    by_cases hpos : uf.nextID < 1
    · rw [if_pos hpos] at hcount
      omega
    · exact Int.not_lt.mp hpos
  · rintro ⟨hcount, htexts⟩
    have hsame : (if uf.nextID < 1 then 1 else uf.nextID,
        uf.notifications.map Notification.written) = uf.inbox :=
      Prod.ext (if_neg (Int.not_lt.mpr hcount)) (map_written_iff.mpr htexts)
    exact hsame ▸ hfile

/-- A load leaves a file that reloads as what was loaded, and one that fails leaves the file. -/
theorem loadFile_reloads (env : Env) (userKey : String) (disk : Disk) :
    (∃ e, loadFile env userKey disk = (disk, .error e)) ∨
    ∃ disk' uf, loadFile env userKey disk = (disk', .ok uf) ∧ uf.version = fileVersion ∧
      Reloads userKey disk uf.inbox ∧ Reloads userKey disk' uf.inbox := by
  cases hread : env.readFails with
  | true => exact .inl (loadFile_readFails hread userKey disk)
  | false =>
    rcases loads userKey disk with h | h | ⟨uf, rfl, hversion, h⟩
    · refine .inr ⟨_, _, h env hread, rfl, fun env hread => ?_, reloads_absent userKey⟩
      rw [h env hread]
      rfl
    · exact .inl ⟨_, h env hread⟩
    · have hfile := reloads_file userKey hversion
      exact .inr ⟨_, _, h env hread, hversion, hfile, hfile⟩

/-- What a file reloads as can be written. -/
theorem Reloads.writable {userKey : String} {disk : Disk} {inbox : Int × List Notification}
    (h : Reloads userKey disk inbox) : Writable inbox := by
  have hload := h { now := 0 } rfl
  rcases loads userKey disk with hempty | hnewer | ⟨uf, rfl, hversion, -⟩
  · rw [hempty _ rfl] at hload
    cases hload
    exact ⟨Int.le_refl _, fun _ hn => (nomatch hn)⟩
  · rw [hnewer _ rfl] at hload
    cases hload
  · rw [h.unique (reloads_file userKey hversion)]
    refine ⟨?_, fun n hn => ?_⟩
    · show 1 ≤ if uf.nextID < 1 then 1 else uf.nextID
      split <;> omega
    · obtain ⟨n', -, rfl⟩ := List.mem_map.mp hn
      exact n'.isText_written

/-! ## What the changes come to -/

theorem incr64_pos_iff {z : Int} (h : 1 ≤ z) : 1 ≤ incr64 z ↔ z ≠ 2 ^ 63 - 1 := by
  unfold incr64
  split <;> omega

theorem newEntry_mem_push (env : Env) (n : Notification) (uf : UserFile) :
    newEntry env uf.nextID n ∈ (uf.push env n).notifications := by
  show _ ∈ pruneOldest MaxPerUser _
  unfold pruneOldest
  split
  · exact List.mem_append_right _ (List.mem_singleton_self _)
  · -- the newest is not among the oldest that are dropped
    next hmax =>
      have hlen : (uf.notifications ++ [newEntry env uf.nextID n]).length =
          uf.notifications.length + 1 := List.length_append
      have hle : (uf.notifications ++ [newEntry env uf.nextID n]).length - MaxPerUser ≤
          uf.notifications.length := by
        rw [hlen]
        have : 0 < MaxPerUser := by decide
        omega
      rw [List.drop_append_of_le_length hle]
      exact List.mem_append_right _ (List.mem_singleton_self _)

/-- The file with a new entry comes back as it is exactly when the counter has not run out and
the link was not cut inside a character. -/
theorem writable_push_iff {uf : UserFile} (h : Writable uf.inbox) (env : Env) (n : Notification) :
    Writable (uf.push env n).inbox ↔
      uf.nextID ≠ 2 ^ 63 - 1 ∧ IsText (truncateBytes n.ref MaxRefLen) := by
  constructor
  · rintro ⟨hcount, htexts⟩
    exact ⟨(incr64_pos_iff h.counted).mp hcount, htexts _ (newEntry_mem_push env n uf)⟩
  · rintro ⟨hcount, htext⟩
    refine ⟨(incr64_pos_iff h.counted).mpr hcount, fun e he => ?_⟩
    rcases List.mem_append.mp ((pruneOldest_suffix _ _).mem he) with he | he
    · exact h.texts e he
    · rw [List.mem_singleton.mp he]
      exact htext

theorem Notification.mark_ref (now : Int) (sel : Notification → Bool) (n : Notification) :
    (n.mark now sel).ref = n.ref := by
  unfold mark
  split <;> rfl

theorem writable_mark {uf : UserFile} (h : Writable uf.inbox) (now : Int)
    (sel : Notification → Bool) : Writable (uf.mark now sel).inbox where
  counted := h.counted
  texts n hn := by
    obtain ⟨n', hn', rfl⟩ := List.mem_map.mp hn
    rw [n'.mark_ref]
    exact h.texts n' hn'

/-- Marking changes the inbox exactly when there is an entry to mark. -/
theorem mark_same_iff {uf : UserFile} (now : Int) {sel : Notification → Bool} :
    (uf.mark now sel).inbox = uf.inbox ↔ (uf.notifications.any fun n => !n.read && sel n) = false := by
  constructor
  · intro h
    refine List.any_eq_false.mpr fun n hn hsel => ?_
    have hlist : uf.notifications.map (·.mark now sel) = uf.notifications := (Prod.mk.inj h).2
    have hself : n.mark now sel = n :=
      List.map_inj_left.mp (hlist.trans (List.map_id _).symm) n hn
    have hread := congrArg Notification.read hself
    unfold Notification.mark at hread
    rw [if_pos hsel] at hread
    rw [← hread] at hsel
    cases hsel
  · intro h
    refine Prod.ext rfl ((List.map_congr_left fun n hn => ?_).trans (List.map_id _))
    exact if_neg (List.any_eq_false.mp h n hn)

theorem writable_eraseIdx {uf : UserFile} (h : Writable uf.inbox) (i : Nat) :
    Writable { uf with notifications := uf.notifications.eraseIdx i }.inbox where
  counted := h.counted
  texts n hn := h.texts n (List.mem_of_mem_eraseIdx hn)

/-! ## One call -/

/-- The inbox in memory is what reloading the user's file yields. -/
def Agrees (userKey : String) (s : Inbox) : Prop :=
  ∀ uf, s.file = some uf → Reloads userKey s.disk uf.inbox

/-- Nothing has changed, in memory or on disk. -/
structure Unchanged (userKey : String) (s s' : Inbox) : Prop where
  memory : ∀ uf, s.file = some uf → ∃ uf', s'.file = some uf' ∧ uf'.inbox = uf.inbox
  disk : ∀ inbox, Reloads userKey s'.disk inbox ↔ Reloads userKey s.disk inbox

/-- After a call memory agrees with disk, and if it returned an error it has changed nothing. -/
structure Faithful (userKey : String) (s : Inbox) (out : Inbox × Result) : Prop where
  agrees : Agrees userKey out.1
  unchanged : ∀ e, out.2 = .error e → Unchanged userKey s out.1

/-- The file in memory is of the version that is written. -/
def Current (s : Inbox) : Prop := ∀ uf, s.file = some uf → uf.version = fileVersion

theorem saveFile_spec (s : Inbox) (env : Env) (uf : UserFile) :
    (saves env = true ∧ ∃ uf', s.saveFile env uf = (⟨some uf', .file uf'⟩, true) ∧
      uf'.inbox = uf.inbox ∧ uf'.version = uf.version) ∨
    (saves env = false ∧ ∃ s', s.saveFile env uf = (s', false) ∧ s'.disk = s.disk) := by
  unfold Inbox.saveFile saves
  cases env.dirFails with
  | true => exact .inr ⟨rfl, _, rfl, rfl⟩
  | false =>
    cases env.saveFails with
    | true => exact .inr ⟨rfl, _, rfl, rfl⟩
    | false => exact .inl ⟨rfl, _, rfl, rfl, rfl⟩

/-- Loading, or finding it loaded. -/
theorem user_spec {s : Inbox} {userKey : String} (h : Agrees userKey s) (hcurrent : Current s)
    (env : Env) :
    (∃ e, s.user env userKey = (s, .error e) ∧ s.file = none) ∨
    ∃ disk uf, s.user env userKey = (⟨some uf, disk⟩, .ok uf) ∧ uf.version = fileVersion ∧
      Reloads userKey s.disk uf.inbox ∧ Reloads userKey disk uf.inbox ∧
      ∀ uf', s.file = some uf' → uf' = uf := by
  unfold Inbox.user
  cases hfile : s.file with
  | some uf =>
    obtain ⟨file, disk⟩ := s
    cases hfile
    exact .inr ⟨disk, uf, rfl, hcurrent uf rfl, h uf rfl, h uf rfl, fun _ h => (Option.some.inj h).symm⟩
  | none =>
    rcases loadFile_reloads env userKey s.disk with ⟨e, hload⟩ | ⟨disk, uf, hload, hversion, hold, hnew⟩
    · rw [hload]
      obtain ⟨file, disk⟩ := s
      cases hfile
      exact .inl ⟨e, rfl, rfl⟩
    · rw [hload]
      exact .inr ⟨disk, uf, rfl, hversion, hold, hnew, fun _ h => (nomatch h)⟩

/-- What a call on the loaded file `uf` has to leave. -/
structure Keeps (userKey : String) (uf : UserFile) (out : Inbox × Result) : Prop where
  agrees : Agrees userKey out.1
  unchanged : ∀ e, out.2 = .error e →
    Reloads userKey out.1.disk uf.inbox ∧ ∃ uf', out.1.file = some uf' ∧ uf'.inbox = uf.inbox

/-- `C` is exactly what such a call is faithful under. -/
structure Decides (userKey : String) (uf : UserFile) (out : Inbox × Result) (C : Prop) : Prop where
  enough : C → Keeps userKey uf out
  needed : Agrees userKey out.1 → C

section Calls

variable {userKey : String} {uf uf' : UserFile} {disk : Disk}

theorem decides_reply (h : Reloads userKey disk uf.inbox) (reply : Reply) :
    Decides userKey uf (⟨some uf, disk⟩, .ok reply) True where
  enough _ := ⟨fun _ hfile => Option.some.inj hfile ▸ h, fun _ herror => (nomatch herror)⟩
  needed _ := trivial

theorem decides_saved (hversion : uf'.version = fileVersion) (reply : Reply) :
    Decides userKey uf (⟨some uf', .file uf'⟩, .ok reply) (Writable uf'.inbox) where
  enough h := ⟨fun _ hfile => Option.some.inj hfile ▸ (reloads_saved_iff hversion).mpr h,
    fun _ herror => (nomatch herror)⟩
  needed h := (reloads_saved_iff hversion).mp (h uf' rfl)

theorem decides_failed (h : Reloads userKey disk uf.inbox) (e : Err) :
    Decides userKey uf (⟨some uf', disk⟩, .error e) (uf'.inbox = uf.inbox) where
  enough hsame := by
    refine ⟨fun _ hfile => ?_, fun _ _ => ⟨h, uf', rfl, hsame⟩⟩
    cases hfile
    exact hsame ▸ h
  needed hagrees := (hagrees uf' rfl).unique h

theorem Decides.congr {out : Inbox × Result} {C C' : Prop} (h : Decides userKey uf out C)
    (hiff : C ↔ C') : Decides userKey uf out C' :=
  ⟨fun hc => h.enough (hiff.mpr hc), fun hagrees => hiff.mp (h.needed hagrees)⟩

/-- A call on the file is faithful under what decides on it once the file is loaded. -/
theorem onFile_faithful_iff {s : Inbox} (h : Agrees userKey s) (hcurrent : Current s) (env : Env)
    {k : Inbox → UserFile → Inbox × Result} {C : UserFile → Prop}
    (hk : ∀ disk uf, uf.version = fileVersion → Reloads userKey disk uf.inbox →
      Decides userKey uf (k ⟨some uf, disk⟩ uf) (C uf)) :
    Faithful userKey s (s.onFile env userKey k) ↔
      ∀ uf, (s.user env userKey).2 = .ok uf → C uf := by
  unfold Inbox.onFile
  rcases user_spec h hcurrent env with ⟨e, huser, -⟩ | ⟨disk, uf, huser, hversion, hold, hnew, hsame⟩
  · rw [huser]
    refine ⟨fun _ _ hok => (nomatch hok), fun _ => ⟨h, fun _ _ => ⟨fun uf hfile => ?_, fun _ => .rfl⟩⟩⟩
    exact ⟨uf, hfile, rfl⟩
  · rw [huser]
    have hdecides := hk disk uf hversion hnew
    constructor
    · rintro ⟨hagrees, -⟩ uf' hok
      cases hok
      exact hdecides.needed hagrees
    · intro hc
      obtain ⟨hagrees, hunchanged⟩ := hdecides.enough (hc uf rfl)
      refine ⟨hagrees, fun e herror => ?_⟩
      obtain ⟨hdisk, uf', hfile', hinbox⟩ := hunchanged e herror
      refine ⟨fun uf₀ hfile => ⟨uf', hfile', hsame uf₀ hfile ▸ hinbox⟩, fun inbox => ?_⟩
      constructor
      · intro hreload
        exact hreload.unique hdisk ▸ hold
      · intro hreload
        exact hreload.unique hold ▸ hdisk

end Calls

/-! ## The condition -/

/-- `Add` makes an entry of the notification. -/
def Creates (userKey : String) (n : Notification) (uf : UserFile) : Prop :=
  trimSpace userKey ≠ "" ∧ validKind n.kind = true ∧ withKey n.dedupeKey uf.notifications = none

/-- No entry that is not read yet is selected, or the save goes through. -/
def MarksSafely (env : Env) (sel : Notification → Bool) (uf : UserFile) : Prop :=
  (uf.notifications.any fun n => !n.read && sel n) = true → saves env = true

/-- A call does not mark entries in a save that fails, does not cut the link of a new entry
inside a character, and does not take the last number of the counter. -/
def SafeOn (userKey : String) (env : Env) (uf : UserFile) : Op → Prop
  | .add n => Creates userKey n uf → saves env = true →
      uf.nextID ≠ 2 ^ 63 - 1 ∧ IsText (truncateBytes n.ref MaxRefLen)
  | .markRead ids => MarksSafely env (wants ids) uf
  | .markAllRead => MarksSafely env (fun _ => true) uf
  | .list _ | .unreadCount | .hasDedupe _ | .delete _ | .reset => True

/-- The condition on a call, for the file that it finds. -/
def Safe (userKey : String) (s : Inbox) (e : Event) : Prop :=
  ∀ uf, (s.user e.env userKey).2 = .ok uf → SafeOn userKey e.env uf e.op

section Calls

variable {userKey : String} {uf : UserFile} {disk : Disk}

theorem setRead_decides (hversion : uf.version = fileVersion) (h : Reloads userKey disk uf.inbox)
    (env : Env) (sel : Notification → Bool) :
    Decides userKey uf (Inbox.setRead ⟨some uf, disk⟩ env uf sel) (MarksSafely env sel uf) := by
  unfold Inbox.setRead MarksSafely
  dsimp only
  cases hany : uf.notifications.any fun n => !n.read && sel n with
  | false =>
    have hsame := (mark_same_iff env.now).mpr hany
    rw [if_neg (by decide)]
    refine ⟨fun _ => ⟨fun _ hfile => ?_, fun _ herror => (nomatch herror)⟩, fun _ hfalse => (nomatch hfalse)⟩
    cases hfile
    exact hsame ▸ h
  | true =>
    have hdiffers : (uf.mark env.now sel).inbox ≠ uf.inbox := fun hsame => by
      rw [mark_same_iff, hany] at hsame
      cases hsame
    rw [if_pos rfl]
    rcases saveFile_spec ⟨some uf, disk⟩ env (uf.mark env.now sel) with
      ⟨hsaves, uf', hsave, hinbox, hversion'⟩ | ⟨hfails, s', hsave, hdisk⟩
    · rw [hsave]
      refine (decides_saved (hversion'.trans hversion) _).congr ?_
      rw [hinbox]
      exact ⟨fun _ _ => hsaves, fun _ => writable_mark h.writable env.now sel⟩
    · rw [hsave]
      dsimp only
      rw [hdisk]
      refine (decides_failed h saveErr).congr ?_
      rw [hfails]
      exact ⟨fun hsame => absurd hsame hdiffers, fun hmust => nomatch hmust rfl⟩

theorem push_decides (hversion : uf.version = fileVersion) (h : Reloads userKey disk uf.inbox)
    (env : Env) (n : Notification) :
    Decides userKey uf
      (match Inbox.saveFile ⟨some uf, disk⟩ env (uf.push env n) with
        | (s, false) => ({ s with file := some uf }, .error saveErr)
        | (s, true) => (s, .ok (.entry (newEntry env uf.nextID n) true)))
      (saves env = true → uf.nextID ≠ 2 ^ 63 - 1 ∧ IsText (truncateBytes n.ref MaxRefLen)) := by
  rcases saveFile_spec ⟨some uf, disk⟩ env (uf.push env n) with
    ⟨hsaves, uf', hsave, hinbox, hversion'⟩ | ⟨hfails, s', hsave, hdisk⟩
  · rw [hsave]
    refine (decides_saved (hversion'.trans hversion) _).congr ?_
    rw [hinbox, writable_push_iff h.writable]
    exact ⟨fun hc _ => hc, fun hc => hc hsaves⟩
  · rw [hsave]
    dsimp only
    rw [hdisk]
    refine (decides_failed h saveErr).congr ?_
    rw [hfails]
    exact ⟨fun _ hfalse => (nomatch hfalse), fun _ => rfl⟩

theorem delete_decides (hversion : uf.version = fileVersion) (h : Reloads userKey disk uf.inbox)
    (env : Env) (idx : Nat) :
    Decides userKey uf
      (match Inbox.saveFile ⟨some uf, disk⟩ env
          { uf with notifications := uf.notifications.eraseIdx idx } with
        | (s, false) => ({ s with file := some uf }, .error saveErr)
        | (s, true) => (s, .ok (.count (unread (uf.notifications.eraseIdx idx)))))
      True := by
  rcases saveFile_spec ⟨some uf, disk⟩ env
      { uf with notifications := uf.notifications.eraseIdx idx } with
    ⟨-, uf', hsave, hinbox, hversion'⟩ | ⟨-, s', hsave, hdisk⟩
  · rw [hsave]
    refine (decides_saved (hversion'.trans hversion) _).congr ?_
    rw [hinbox]
    exact ⟨fun _ => trivial, fun _ => writable_eraseIdx h.writable idx⟩
  · rw [hsave]
    dsimp only
    rw [hdisk]
    exact (decides_failed h saveErr).congr ⟨fun _ => trivial, fun _ => rfl⟩

end Calls

/-- **A call is faithful exactly under the condition.** -/
theorem exec_faithful_iff {s : Inbox} {userKey : String} (h : Agrees userKey s)
    (hcurrent : Current s) (e : Event) :
    Faithful userKey s (s.exec e.env userKey e.op) ↔ Safe userKey s e := by
  obtain ⟨env, op⟩ := e
  have hsame : ∀ e : Err, Faithful userKey s (s, .error e) := fun e =>
    ⟨h, fun _ _ => ⟨fun uf hfile => ⟨uf, hfile, rfl⟩, fun _ => .rfl⟩⟩
  cases op with
  | list limit => exact onFile_faithful_iff h hcurrent env fun _ _ _ hload => decides_reply hload _
  | unreadCount => exact onFile_faithful_iff h hcurrent env fun _ _ _ hload => decides_reply hload _
  | hasDedupe key =>
    show Faithful userKey s (if key = "" then _ else _) ↔ _
    split
    · exact ⟨fun _ _ _ => trivial, fun _ => ⟨h, fun _ herror => (nomatch herror)⟩⟩
    · exact onFile_faithful_iff h hcurrent env fun _ _ _ hload => decides_reply hload _
  | add n =>
    show Faithful userKey s (s.add env userKey n) ↔ _
    unfold Inbox.add
    by_cases hkey : trimSpace userKey = ""
    · rw [if_pos hkey]
      exact ⟨fun _ _ _ hcreates => absurd hkey hcreates.1, fun _ => hsame _⟩
    rw [if_neg hkey]
    cases hkind : validKind n.kind with
    | false =>
      refine ⟨fun _ _ _ hcreates => ?_, fun _ => hsame _⟩
      have hvalid := hcreates.2.1
      rw [hkind] at hvalid
      cases hvalid
    | true =>
      refine onFile_faithful_iff h hcurrent env fun disk uf hversion hload => ?_
      cases hdedupe : withKey n.dedupeKey uf.notifications with
      | some ex =>
        refine (decides_reply hload _).congr ⟨fun _ hcreates => ?_, fun _ => trivial⟩
        have hnone := hcreates.2.2
        rw [hdedupe] at hnone
        cases hnone
      | none =>
        refine (push_decides hversion hload env n).congr ?_
        exact ⟨fun hc _ => hc, fun hc => hc ⟨hkey, hkind, hdedupe⟩⟩
  | markRead ids =>
    exact onFile_faithful_iff h hcurrent env fun _ _ hversion hload =>
      setRead_decides hversion hload env (wants ids)
  | markAllRead =>
    exact onFile_faithful_iff h hcurrent env fun _ _ hversion hload =>
      setRead_decides hversion hload env fun _ => true
  | delete id =>
    refine onFile_faithful_iff h hcurrent env fun disk uf hversion hload => ?_
    cases uf.notifications.findIdx? fun n => n.id = id with
    | none => exact decides_reply hload _
    | some idx => exact delete_decides hversion hload env idx
  | reset =>
    exact ⟨fun _ _ _ => trivial, fun _ => ⟨fun _ hfile => (nomatch hfile), fun _ herror => (nomatch herror)⟩⟩

/-! ## Runs -/

theorem current_some {uf : UserFile} {disk : Disk} (hversion : uf.version = fileVersion) :
    Current ⟨some uf, disk⟩ := fun _ hfile => Option.some.inj hfile ▸ hversion

/-- A save leaves a file of the version it was given, or the copy. -/
theorem current_save {s : Inbox} {env : Env} {uf prev : UserFile}
    (hversion : uf.version = fileVersion) (hprev : prev.version = fileVersion) {reply : Reply} :
    Current (match s.saveFile env uf with
      | (s, false) => ({ s with file := some prev }, Except.error saveErr)
      | (s, true) => (s, (Except.ok reply : Result))).1 := by
  rcases saveFile_spec s env uf with ⟨-, uf', hsave, -, hversion'⟩ | ⟨-, s', hsave, -⟩
  · rw [hsave]
    exact current_some (hversion'.trans hversion)
  · rw [hsave]
    exact current_some hprev

theorem exec_current {s : Inbox} {userKey : String} (h : Agrees userKey s) (hcurrent : Current s)
    (env : Env) (op : Op) : Current (s.exec env userKey op).1 := by
  have hon : ∀ {k : Inbox → UserFile → Inbox × Result},
      (∀ disk uf, uf.version = fileVersion → Current (k ⟨some uf, disk⟩ uf).1) →
      Current (s.onFile env userKey k).1 := by
    intro k hk
    unfold Inbox.onFile
    rcases user_spec h hcurrent env with ⟨e, huser, -⟩ | ⟨disk, uf, huser, hversion, -⟩
    · rw [huser]
      exact hcurrent
    · rw [huser]
      exact hk disk uf hversion
  have hset : ∀ sel, Current (s.onFile env userKey fun s uf => s.setRead env uf sel).1 := by
    refine fun sel => hon fun disk uf hversion => ?_
    unfold Inbox.setRead
    dsimp only
    have hmarked : (uf.mark env.now sel).version = fileVersion := hversion
    split
    · exact current_save hmarked hmarked
    · exact current_some hversion
  cases op with
  | list limit => exact hon fun _ _ hversion => current_some hversion
  | unreadCount => exact hon fun _ _ hversion => current_some hversion
  | hasDedupe key =>
    show Current (if key = "" then _ else _ : Inbox × Result).1
    split
    · exact hcurrent
    · exact hon fun _ _ hversion => current_some hversion
  | add n =>
    show Current (s.add env userKey n).1
    unfold Inbox.add
    split
    · exact hcurrent
    split
    · exact hcurrent
    refine hon fun disk uf hversion => ?_
    have hpushed : (uf.push env n).version = fileVersion := hversion
    dsimp only
    split
    · exact current_some hversion
    · exact current_save hpushed hversion
  | markRead ids => exact hset (wants ids)
  | markAllRead => exact hset fun _ => true
  | delete id =>
    refine hon fun disk uf hversion => ?_
    dsimp only
    cases uf.notifications.findIdx? fun n => n.id = id with
    | none => exact current_some hversion
    | some idx =>
      have herased : { uf with notifications := uf.notifications.eraseIdx idx }.version =
          fileVersion := hversion
      exact current_save herased hversion
  | reset => exact fun _ hfile => (nomatch hfile)

/-- What an event leaves. -/
def next (userKey : String) (s : Inbox) (e : Event) : Inbox := (s.exec e.env userKey e.op).1

/-- **Memory agrees with disk** after every call of a run, and the calls that return errors
change nothing, exactly when every call meets the condition. -/
theorem faithful_throughout_iff (userKey : String) (disk : Disk) (es : List Event) :
    Throughout (next userKey) (fun s e => Faithful userKey s (s.exec e.env userKey e.op))
        (Inbox.start disk) es ↔
      Throughout (next userKey) (Safe userKey) (Inbox.start disk) es :=
  throughout_iff (I := fun s => Agrees userKey s ∧ Current s)
    (fun _ hs e _ => exec_faithful_iff hs.1 hs.2 e)
    (fun _ hs e _ hfaithful => ⟨hfaithful.agrees, exec_current hs.1 hs.2 e.env e.op⟩)
    ⟨fun _ hfile => (nomatch hfile), fun _ hfile => (nomatch hfile)⟩

/-- A mention, and everything marked as read in a save that fails. -/
def lostMark : List Event :=
  [⟨{ now := 0 }, .add { kind := KindMention, subject := "general" }⟩,
    ⟨{ now := 1, saveFails := true }, .markAllRead⟩]

/-- **A failed save keeps its marks**: the entry is read in memory and not on disk. -/
theorem mark_survives_failure :
    ¬ Throughout (next "u1") (fun s e => Faithful "u1" s (s.exec e.env "u1" e.op))
        (Inbox.start .absent) lostMark := by
  rintro ⟨-, ⟨hagrees, -⟩, -⟩
  have hmemory : (lostMark.foldl (next "u1") (Inbox.start .absent)).file.map
      (fun uf => uf.notifications.map (·.read)) = some [true] := by decide +kernel
  have hdisk : (((loadFile { now := 2 } "u1"
      (lostMark.foldl (next "u1") (Inbox.start .absent)).disk).2.map UserFile.inbox).toOption.map
        fun inbox => inbox.2.map (·.read)) = some [false] := by decide +kernel
  obtain ⟨uf, hfile, hread⟩ := Option.map_eq_some_iff.mp hmemory
  have hagrees : Agrees "u1" (lostMark.foldl (next "u1") (Inbox.start .absent)) := hagrees
  rw [hagrees uf hfile _ rfl] at hdisk
  have hsame : [true] = [false] := hread.symm.trans (Option.some.inj hdisk)
  cases hsame

end Notifications
