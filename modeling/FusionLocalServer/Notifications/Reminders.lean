import FusionLocalServer.Notifications.Agreement
import FusionLocalServer.Tasks.Types
import FusionLocalServer.Lib.Date

/-!
# Reminders

Whenever a user's inbox is read, reminders of the tasks assigned to them are added, each under
a key of its own; an entry that has the key already stands for the reminder. So a key is
remembered exactly as long as its entry is in the inbox.
-/

namespace Notifications

open Lib (Run Time formatDate trimSpace)
open FusionLocalServer.Storage

/-! ## Reconciliation -/

/-- How far ahead a task is flagged, in days. -/
def dueSoonDays : Int := 2

structure ProjectTask where
  task : Tasks.TaskVal
  projectID : String
  hubID : String
  projectName : String

/-- Whose inbox it is; when two e-mails are the same but for the case of their letters is left
open. -/
structure Caller where
  userID : String
  email : String
  equalFold : String → String → Bool

def refMatchesUser (ref : Tasks.UserRef) (c : Caller) : Bool :=
  (ref.id ≠ "" && ref.id = c.userID) ||
    (ref.email ≠ "" && c.email ≠ "" && c.equalFold ref.email c.email)

/-- The date of an instant, some days later. -/
def dateOf (now : Time) (days : Int) : String :=
  String.ofList (formatDate (now / (Lib.secondsPerDay * Lib.nanosPerSecond : Nat) + days))

/-- The key of a reminder. -/
def reminderKey (kind : String) (pt : ProjectTask) : String :=
  kind ++ ":" ++ pt.projectID ++ ":" ++ pt.task.id ++ ":" ++ pt.task.dueDate

/-- The reminder of a task, if there is one: the body of the loop of
`reconcileTaskReminders`. -/
def reminder (c : Caller) (now : Time) (pt : ProjectTask) : Option Notification :=
  let t := pt.task
  if t.dueDate = "" ∨ t.status = "done" then none
  else if !(t.assignee.any fun ref => refMatchesUser ref c) then none
  else
    let raise (kind : String) : Notification :=
      { kind, hubID := pt.hubID, projectID := pt.projectID, projectName := pt.projectName
        subject := t.title, dedupeKey := reminderKey kind pt }
    if t.dueDate < dateOf now 0 then some (raise KindOverdue)
    else if t.dueDate ≤ dateOf now dueSoonDays then some (raise KindDueSoon)
    else none

/-- What happens to an inbox: a call, or one turn of the loop that reconciles the reminders.
Each turn takes the lock for itself. -/
inductive Visit where
  | call (e : Event)
  | remind (env : Env) (c : Caller) (now : Time) (pt : ProjectTask)

/-- `reconcileTaskReminders`, for the tasks of the user, each with what its turn meets with. -/
def reconcileTaskReminders (c : Caller) (now : Time) (mine : List (Env × ProjectTask)) :
    List Visit :=
  mine.map fun pt => .remind pt.1 c now pt.2

/-- The call that a visit comes to. -/
def Visit.event : Visit → Option Event
  | .call e => some e
  | .remind env c now pt => (reminder c now pt).map fun n => ⟨env, .add n⟩

/-- An inbox, and the keys of the entries that were ever made, in that order. -/
structure Watched where
  inbox : Inbox
  created : List String

/-- The key that a call made an entry for. -/
def Result.made : Result → List String
  | .ok (.entry n true) => if n.dedupeKey = "" then [] else [n.dedupeKey]
  | _ => []

namespace Watched

def start : Watched := { inbox := Inbox.start .absent, created := [] }

def call (userKey : String) (w : Watched) (e : Event) : Watched :=
  let out := w.inbox.exec e.env userKey e.op
  { inbox := out.1, created := w.created ++ Result.made out.2 }

def visit (userKey : String) (w : Watched) (v : Visit) : Watched :=
  match v.event with
  | some e => w.call userKey e
  | none => w

def Happens (userKey : String) (w : Watched) (v : Visit) (w' : Watched) : Prop :=
  w.visit userKey v = w'

end Watched

/-! ## Keys -/

/-- The keys of the entries of a file. -/
def keys (ns : List Notification) : List String := (ns.map (·.dedupeKey)).filter (· ≠ "")

@[simp] theorem keys_append (ns ns' : List Notification) : keys (ns ++ ns') = keys ns ++ keys ns' := by
  unfold keys
  rw [List.map_append, List.filter_append]

theorem mem_keys {ns : List Notification} {key : String} :
    key ∈ keys ns ↔ key ≠ "" ∧ ∃ n ∈ ns, n.dedupeKey = key := by
  unfold keys
  rw [List.mem_filter, List.mem_map, decide_eq_true_eq, and_comm]

theorem keys_singleton (n : Notification) :
    keys [n] = if n.dedupeKey = "" then [] else [n.dedupeKey] := by
  unfold keys
  by_cases h : n.dedupeKey = "" <;> simp [h]

theorem keys_eq_nil {ns : List Notification} (h : ∀ n ∈ ns, n.dedupeKey = "") : keys ns = [] := by
  refine List.eq_nil_iff_forall_not_mem.mpr fun key hkey => ?_
  obtain ⟨hne, n, hn, rfl⟩ := mem_keys.mp hkey
  exact hne (h n hn)

theorem keys_map {ns : List Notification} {f : Notification → Notification}
    (hf : ∀ n, (f n).dedupeKey = n.dedupeKey) : keys (ns.map f) = keys ns := by
  unfold keys
  rw [List.map_map]
  exact congrArg _ (List.map_congr_left fun n _ => hf n)

/-- A key is looked up among the keys. -/
theorem withKey_eq_none {key : String} {ns : List Notification} :
    withKey key ns = none ↔ key ∉ keys ns := by
  unfold withKey
  split
  · next hempty => exact ⟨fun _ hkey => (mem_keys.mp hkey).1 hempty, fun _ => rfl⟩
  · next hne =>
    rw [List.find?_eq_none]
    constructor
    · intro h hkey
      obtain ⟨-, n, hn, heq⟩ := mem_keys.mp hkey
      exact h n hn (decide_eq_true heq)
    · intro h n hn heq
      exact h (mem_keys.mpr ⟨hne, n, hn, of_decide_eq_true heq⟩)

/-- The entries that make room for a new one. -/
def outgoing (ns : List Notification) : List Notification := ns.take (ns.length + 1 - MaxPerUser)

/-- A call forgets no key: it dismisses no entry that has one, and adds no entry to a full inbox
whose oldest entries have one. -/
def RetainsOn (userKey : String) (env : Env) (uf : UserFile) : Op → Prop
  | .add n => Creates userKey n uf → saves env = true →
      ∀ e ∈ outgoing uf.notifications, e.dedupeKey = ""
  | .delete id => saves env = true → ∀ n,
      (uf.notifications.find? fun n => n.id = id) = some n → n.dedupeKey = ""
  | .list _ | .unreadCount | .hasDedupe _ | .markRead _ | .markAllRead | .reset => True

/-- These are the keys that the inbox remembers, in memory and on disk. -/
structure Tracks (s : Inbox) (ks : List String) : Prop where
  memory : ∀ uf, s.file = some uf → uf.version = fileVersion ∧ keys uf.notifications = ks
  disk : s.disk = .absent ∧ ks = [] ∨
    ∃ uf, s.disk = .file uf ∧ uf.version = fileVersion ∧ keys uf.notifications = ks

section Effects

variable {s : Inbox} {ks : List String} {userKey : String} {uf : UserFile}

theorem tracks_start : Tracks (Inbox.start .absent) [] :=
  ⟨fun _ hfile => (nomatch hfile), .inl ⟨rfl, rfl⟩⟩

theorem Tracks.drop (h : Tracks s ks) : Tracks { s with file := none } ks :=
  ⟨fun _ hfile => (nomatch hfile), h.disk⟩

/-- The file in memory is replaced by one with the same keys. -/
theorem Tracks.replace (h : Tracks s ks) (hversion : uf.version = fileVersion)
    (hkeys : keys uf.notifications = ks) : Tracks { s with file := some uf } ks :=
  ⟨fun _ hfile => Option.some.inj hfile ▸ ⟨hversion, hkeys⟩, h.disk⟩

theorem tracks_saved (hversion : uf.version = fileVersion) :
    Tracks ⟨some uf, .file uf⟩ (keys uf.notifications) :=
  ⟨fun _ hfile => Option.some.inj hfile ▸ ⟨hversion, rfl⟩, .inr ⟨uf, rfl, hversion, rfl⟩⟩

/-- Loading, or finding it loaded. -/
theorem Tracks.user (h : Tracks s ks) (env : Env) (userKey : String) :
    (env.readFails = true ∧ ∃ e, s.user env userKey = (s, .error e)) ∨
    ∃ uf, s.user env userKey = ({ s with file := some uf }, .ok uf) ∧
      uf.version = fileVersion ∧ keys uf.notifications = ks := by
  unfold Inbox.user
  cases hfile : s.file with
  | some uf =>
    obtain ⟨file, disk⟩ := s
    cases hfile
    exact .inr ⟨uf, rfl, h.memory uf rfl⟩
  | none =>
    dsimp only
    cases hread : env.readFails with
    | true =>
      obtain ⟨e, hload⟩ := loadFile_readFails hread userKey s.disk
      rw [hload]
      obtain ⟨file, disk⟩ := s
      cases hfile
      exact .inl ⟨rfl, e, rfl⟩
    | false =>
      refine .inr ?_
      rcases h.disk with ⟨hdisk, rfl⟩ | ⟨uf, hdisk, hversion, hkeys⟩
      · refine ⟨freshFile env userKey, ?_, rfl, rfl⟩
        unfold loadFile
        rw [hread, hdisk]
        rfl
      · refine ⟨repairFile env userKey uf.written, ?_, hversion, ?_⟩
        · unfold loadFile
          rw [hread, hdisk]
          dsimp only
          rw [hversion, if_neg (by decide), if_neg (by decide), if_neg (by decide)]
        · exact (keys_map (f := Notification.written) fun _ => rfl).trans hkeys

/-- What a call does to the keys: it leaves them, makes an entry, or removes one. -/
inductive Effect (userKey : String) (s : Inbox) (ks : List String) (e : Event)
    (out : Inbox × Result) : Prop where
  | kept (htracks : Tracks out.1 ks) (hmade : Result.made out.2 = [])
      (hretains : ∀ uf, (s.user e.env userKey).2 = .ok uf → RetainsOn userKey e.env uf e.op)
  | added (uf : UserFile) (n : Notification) (hop : e.op = .add n)
      (huser : (s.user e.env userKey).2 = .ok uf) (hkeys : keys uf.notifications = ks)
      (hcreates : Creates userKey n uf) (hsaves : saves e.env = true)
      (htracks : Tracks out.1 (keys (uf.push e.env n).notifications))
      (hmade : Result.made out.2 = keys [n])
  | removed (uf : UserFile) (id : String) (idx : Nat) (hop : e.op = .delete id)
      (huser : (s.user e.env userKey).2 = .ok uf) (hkeys : keys uf.notifications = ks)
      (hidx : (uf.notifications.findIdx? fun n => n.id = id) = some idx)
      (hsaves : saves e.env = true)
      (htracks : Tracks out.1 (keys (uf.notifications.eraseIdx idx)))
      (hmade : Result.made out.2 = [])

/-- A call on the file has the effect of what it does once the file is loaded. -/
theorem Tracks.onFile (h : Tracks s ks) {e : Event} {k : Inbox → UserFile → Inbox × Result}
    (hk : ∀ s₁ uf, Tracks s₁ ks → s₁.file = some uf → (s.user e.env userKey).2 = .ok uf →
      uf.version = fileVersion → keys uf.notifications = ks →
      Effect userKey s ks e (k s₁ uf)) :
    Effect userKey s ks e (s.onFile e.env userKey k) := by
  unfold Inbox.onFile
  rcases h.user e.env userKey with ⟨-, err, huser⟩ | ⟨uf, huser, hversion, hkeys⟩
  · rw [huser]
    refine .kept h rfl fun uf hok => ?_
    rw [huser] at hok
    cases hok
  · have hok := congrArg Prod.snd huser
    rw [huser]
    exact hk _ uf (h.replace hversion hkeys) rfl hok hversion hkeys

theorem setRead_effect {s₀ : Inbox} {e : Event} (h : Tracks s ks) (hversion : uf.version = fileVersion)
    (hkeys : keys uf.notifications = ks) (env : Env) (sel : Notification → Bool)
    (hretains : ∀ uf, RetainsOn userKey e.env uf e.op) :
    Effect userKey s₀ ks e (s.setRead env uf sel) := by
  have hmark : keys (uf.mark env.now sel).notifications = ks := by
    refine (keys_map fun n => ?_).trans hkeys
    unfold Notification.mark
    split <;> rfl
  have hmarked : (uf.mark env.now sel).version = fileVersion := hversion
  unfold Inbox.setRead
  dsimp only
  split
  · rcases saveFile_spec s env (uf.mark env.now sel) with
      ⟨-, uf', hsave, hinbox, hversion'⟩ | ⟨-, s', hsave, hdisk⟩
    · rw [hsave]
      have hsame : keys uf'.notifications = ks :=
        (congrArg (fun inbox => keys inbox.2) hinbox).trans hmark
      exact .kept (hsame ▸ tracks_saved (hversion'.trans hversion)) rfl fun uf _ => hretains uf
    · rw [hsave]
      refine .kept ⟨fun _ hfile => Option.some.inj hfile ▸ ⟨hmarked, hmark⟩, ?_⟩ rfl
        fun uf _ => hretains uf
      exact hdisk.symm ▸ h.disk
  · exact .kept (h.replace hmarked hmark) rfl fun uf _ => hretains uf

/-- **What a call does to the keys.** -/
theorem Tracks.exec (h : Tracks s ks) (e : Event) :
    Effect userKey s ks e (s.exec e.env userKey e.op) := by
  obtain ⟨env, op⟩ := e
  cases op with
  | list limit => exact h.onFile fun _ _ h₁ _ _ _ _ => .kept h₁ rfl fun _ _ => trivial
  | unreadCount => exact h.onFile fun _ _ h₁ _ _ _ _ => .kept h₁ rfl fun _ _ => trivial
  | hasDedupe key =>
    show Effect userKey s ks _ (if key = "" then _ else _)
    split
    · exact .kept h rfl fun _ _ => trivial
    · exact h.onFile fun _ _ h₁ _ _ _ _ => .kept h₁ rfl fun _ _ => trivial
  | add n =>
    show Effect userKey s ks _ (s.add env userKey n)
    unfold Inbox.add
    by_cases hkey : trimSpace userKey = ""
    · rw [if_pos hkey]
      exact .kept h rfl fun _ _ hcreates => absurd hkey hcreates.1
    rw [if_neg hkey]
    cases hkind : validKind n.kind with
    | false =>
      refine .kept h rfl fun _ _ hcreates => ?_
      have hvalid := hcreates.2.1
      rw [hkind] at hvalid
      cases hvalid
    | true =>
      refine h.onFile fun s₁ uf h₁ hfile huser hversion hkeys => ?_
      dsimp only
      cases hdedupe : withKey n.dedupeKey uf.notifications with
      | some ex =>
        refine .kept h₁ rfl fun uf' huser' hcreates => ?_
        have hnone := hcreates.2.2
        rw [← Except.ok.inj (huser.symm.trans huser'), hdedupe] at hnone
        cases hnone
      | none =>
        dsimp only
        rcases saveFile_spec s₁ env (uf.push env n) with
          ⟨hsaves, uf', hsave, hinbox, hversion'⟩ | ⟨hfails, s', hsave, hdisk⟩
        · rw [hsave]
          have hsame : keys uf'.notifications = keys (uf.push env n).notifications :=
            congrArg (fun inbox => keys inbox.2) hinbox
          refine .added uf n rfl huser hkeys ⟨hkey, hkind, hdedupe⟩ hsaves
            (hsame ▸ tracks_saved (hversion'.trans hversion)) ?_
          rw [keys_singleton]
          rfl
        · rw [hsave]
          refine .kept ⟨fun _ hfile => Option.some.inj hfile ▸ ⟨hversion, hkeys⟩, ?_⟩ rfl
            fun _ _ _ hsaves => ?_
          · exact hdisk.symm ▸ h₁.disk
          · rw [hfails] at hsaves
            cases hsaves
  | markRead ids =>
    exact h.onFile fun s₁ uf h₁ _ _ hversion hkeys => setRead_effect h₁ hversion hkeys env _
      fun _ => trivial
  | markAllRead =>
    exact h.onFile fun s₁ uf h₁ _ _ hversion hkeys => setRead_effect h₁ hversion hkeys env _
      fun _ => trivial
  | delete id =>
    refine h.onFile fun s₁ uf h₁ hfile huser hversion hkeys => ?_
    dsimp only
    cases hidx : uf.notifications.findIdx? fun n => n.id = id with
    | none =>
      refine .kept h₁ rfl fun uf' huser' _ n hfind => ?_
      rw [← Except.ok.inj (huser.symm.trans huser')] at hfind
      have hnone := List.findIdx?_eq_none_iff.mp hidx n (List.mem_of_find?_eq_some hfind)
      rw [List.find?_some hfind] at hnone
      cases hnone
    | some idx =>
      dsimp only
      rcases saveFile_spec s₁ env { uf with notifications := uf.notifications.eraseIdx idx } with
        ⟨hsaves, uf', hsave, hinbox, hversion'⟩ | ⟨hfails, s', hsave, hdisk⟩
      · rw [hsave]
        have hsame : keys uf'.notifications = keys (uf.notifications.eraseIdx idx) :=
          congrArg (fun inbox => keys inbox.2) hinbox
        exact .removed uf id idx rfl huser hkeys hidx hsaves
          (hsame ▸ tracks_saved (hversion'.trans hversion)) rfl
      · rw [hsave]
        refine .kept ⟨fun _ hfile => Option.some.inj hfile ▸ ⟨hversion, hkeys⟩, ?_⟩ rfl
          fun _ _ hsaves => ?_
        · exact hdisk.symm ▸ h₁.disk
        · rw [hfails] at hsaves
          cases hsaves
  | reset => exact .kept h.drop rfl fun _ _ => trivial

/-! ## What is forgotten -/

theorem keys_push (env : Env) (n : Notification) (uf : UserFile) :
    keys uf.notifications ++ keys [n] =
      keys (outgoing uf.notifications) ++ keys (uf.push env n).notifications := by
  have hpush : (uf.push env n).notifications =
      (uf.notifications ++ [newEntry env uf.nextID n]).drop
        (uf.notifications.length + 1 - MaxPerUser) := by
    show pruneOldest MaxPerUser _ = _
    unfold pruneOldest
    split
    · next hfits =>
      have hzero : uf.notifications.length + 1 - MaxPerUser = 0 := by
        rcases hfits with hzero | hle
        · cases hzero
        · rw [List.length_append] at hle
          exact Nat.sub_eq_zero_of_le hle
      rw [hzero]
      rfl
    · rw [List.length_append]
      rfl
  have hle : uf.notifications.length + 1 - MaxPerUser ≤ uf.notifications.length := by
    have : 0 < MaxPerUser := by decide
    omega
  have hentry : keys [newEntry env uf.nextID n] = keys [n] := by
    rw [keys_singleton, keys_singleton]
    rfl
  have hsplit : keys uf.notifications = keys (outgoing uf.notifications) ++
      keys (uf.notifications.drop (uf.notifications.length + 1 - MaxPerUser)) := by
    rw [outgoing, ← keys_append, List.take_append_drop]
  rw [hpush, List.drop_append_of_le_length hle, keys_append, hentry, ← List.append_assoc, ← hsplit]

theorem keys_eraseIdx {ns : List Notification} {p : Notification → Bool} {i : Nat}
    (hidx : ns.findIdx? p = some i) : ∃ n ks ks', ns.find? p = some n ∧
      keys ns = ks ++ keys [n] ++ ks' ∧ keys (ns.eraseIdx i) = ks ++ ks' := by
  obtain ⟨hi, hp, hbefore⟩ := List.findIdx?_eq_some_iff_getElem.mp hidx
  refine ⟨ns[i], keys (ns.take i), keys (ns.drop (i + 1)), ?_, ?_, ?_⟩
  · exact List.find?_eq_some_iff_getElem.mpr ⟨hp, i, hi, rfl, fun j hj => by
      simpa using hbefore j hj⟩
  · have hsplit : ns = ns.take i ++ [ns[i]] ++ ns.drop (i + 1) := by
      rw [List.append_assoc, List.singleton_append, List.getElem_cons_drop, List.take_append_drop]
    conv_lhs => rw [hsplit]
    rw [keys_append, keys_append]
  · rw [List.eraseIdx_eq_take_drop_succ, keys_append]

end Effects

/-- The keys that the inbox remembers are those of the entries ever made, each once. -/
structure Remembers (userKey : String) (w : Watched) : Prop where
  tracks : Tracks w.inbox w.created
  once : w.created.Nodup
  named : w.created ≠ [] → trimSpace userKey ≠ ""

/-- The condition on what happens to an inbox. -/
def Retains (userKey : String) (w : Watched) (v : Visit) : Prop :=
  ∀ e uf, v.event = some e → (w.inbox.user e.env userKey).2 = .ok uf →
    RetainsOn userKey e.env uf e.op

section Runs

variable {userKey : String} {w : Watched}

/-- A key that is made is not among those remembered. -/
theorem Creates.fresh {n : Notification} {uf : UserFile} (h : Creates userKey n uf) :
    ∀ key ∈ keys [n], key ∉ keys uf.notifications := by
  intro key hkey
  obtain ⟨-, n', hn', rfl⟩ := mem_keys.mp hkey
  rw [List.mem_singleton.mp hn']
  exact withKey_eq_none.mp h.2.2

theorem Remembers.added {created : List String} (h : Remembers userKey w) {n : Notification}
    {uf : UserFile} (hkeys : keys uf.notifications = w.created) (hcreates : Creates userKey n uf)
    (hcreated : created = w.created ++ keys [n]) :
    created.Nodup ∧ (created ≠ [] → trimSpace userKey ≠ "") := by
  subst hcreated
  refine ⟨?_, fun _ => hcreates.1⟩
  refine List.nodup_append.mpr ⟨h.once, ?_, ?_⟩
  · rw [keys_singleton]
    split
    · exact List.nodup_nil
    · exact List.nodup_singleton _
  · rintro key hkey key' hkey' rfl
    exact hcreates.fresh key hkey' (hkeys ▸ hkey)

/-- **One visit under the condition** keeps what the inbox remembers. -/
theorem Remembers.visit (h : Remembers userKey w) {v : Visit} (hretains : Retains userKey w v) :
    Remembers userKey (w.visit userKey v) := by
  unfold Watched.visit
  cases hevent : v.event with
  | none => exact h
  | some e =>
    have heffect : Effect userKey _ _ e _ := h.tracks.exec e
    have hon := fun uf => hretains e uf hevent
    show Remembers userKey (w.call userKey e)
    unfold Watched.call
    generalize w.inbox.exec e.env userKey e.op = out at heffect
    rcases heffect with ⟨htracks, hmade, -⟩ |
      ⟨uf, n, hop, huser, hkeys, hcreates, hsaves, htracks, hmade⟩ |
      ⟨uf, id, idx, hop, huser, hkeys, hidx, hsaves, htracks, hmade⟩
    · dsimp only
      rw [hmade, List.append_nil]
      exact ⟨htracks, h.once, h.named⟩
    · have hkept := hon uf huser
      rw [hop] at hkept
      have hpush := keys_push e.env n uf
      rw [keys_eq_nil (hkept hcreates hsaves), List.nil_append, hkeys] at hpush
      obtain ⟨honce, hnamed⟩ := h.added hkeys hcreates (congrArg (w.created ++ ·) hmade)
      refine ⟨?_, honce, hnamed⟩
      dsimp only
      rw [hmade, hpush]
      exact htracks
    · have hkept := hon uf huser
      rw [hop] at hkept
      obtain ⟨n, ks, ks', hfind, hall, hrest⟩ := keys_eraseIdx hidx
      rw [keys_eq_nil (List.forall_mem_singleton.mpr (hkept hsaves n hfind)), List.append_nil,
        hkeys] at hall
      dsimp only
      rw [hrest, ← hall] at htracks
      rw [hmade, List.append_nil]
      exact ⟨htracks, h.once, h.named⟩

/-- A reminder of a key. -/
def remindAgain (key : String) : Visit :=
  .call ⟨{ now := 0 }, .add { kind := KindOverdue, dedupeKey := key }⟩

/-- A key that the inbox does not remember is made again. -/
theorem made_again {ks : List String} (h : Tracks w.inbox ks) (hname : trimSpace userKey ≠ "")
    {key : String} (hne : key ≠ "") (hforgotten : key ∉ ks) :
    (w.visit userKey (remindAgain key)).created = w.created ++ [key] := by
  rcases h.user { now := 0 } userKey with ⟨hread, -⟩ | ⟨uf, huser, -, hkeys⟩
  · cases hread
  have hnone : withKey key uf.notifications = none := withKey_eq_none.mpr (hkeys ▸ hforgotten)
  have hmade : Result.made (w.inbox.add { now := 0 } userKey
      { kind := KindOverdue, dedupeKey := key }).2 = [key] := by
    unfold Inbox.add
    rw [if_neg hname, if_neg (show ¬ (!validKind KindOverdue) = true by decide)]
    unfold Inbox.onFile
    rw [huser]
    dsimp only
    rw [hnone]
    dsimp only
    rcases saveFile_spec { w.inbox with file := some uf } { now := 0 }
      (uf.push { now := 0 } { kind := KindOverdue, dedupeKey := key }) with
      ⟨-, uf', hsave, -⟩ | ⟨hfails, -⟩
    · rw [hsave]
      exact if_neg hne
    · cases hfails
  exact congrArg (w.created ++ ·) hmade

/-- **A visit that forgets a key** lets the next reminder under it come again. -/
theorem Remembers.raised_again (h : Remembers userKey w) {v : Visit}
    (hforgets : ¬ Retains userKey w v) :
    ∃ key, ¬ ((w.visit userKey v).visit userKey (remindAgain key)).created.Nodup := by
  unfold Retains at hforgets
  push Not at hforgets
  obtain ⟨e, uf, hevent, huser, hnot⟩ := hforgets
  have hagain : ∀ {w' : Watched} {ks : List String}, Tracks w'.inbox ks →
      trimSpace userKey ≠ "" → ∀ key ∈ w'.created, key ≠ "" → key ∉ ks →
      ¬ (w'.visit userKey (remindAgain key)).created.Nodup := by
    intro w' ks htracks hname key hkey hne hforgotten hnodup
    rw [made_again htracks hname hne hforgotten] at hnodup
    exact (List.nodup_append.mp hnodup).2.2 key hkey key (List.mem_singleton_self _) rfl
  have heffect : Effect userKey _ _ e _ := h.tracks.exec e
  have hvisit : w.visit userKey v = w.call userKey e := by
    unfold Watched.visit
    rw [hevent]
  rw [hvisit]
  unfold Watched.call
  generalize w.inbox.exec e.env userKey e.op = out at heffect
  rcases heffect with ⟨-, -, hretains⟩ |
    ⟨uf', n, hop, huser', hkeys, hcreates, hsaves, htracks, hmade⟩ |
    ⟨uf', id, idx, hop, huser', hkeys, hidx, hsaves, htracks, hmade⟩
  · exact absurd (hretains uf huser) hnot
  · obtain rfl := Except.ok.inj (huser.symm.trans huser')
    rw [hop] at hnot
    have hdropped : ¬ ∀ e ∈ outgoing uf.notifications, e.dedupeKey = "" :=
      fun hall => hnot fun _ _ => hall
    push Not at hdropped
    obtain ⟨n', hn', hne⟩ := hdropped
    have hkey : n'.dedupeKey ∈ keys (outgoing uf.notifications) :=
      mem_keys.mpr ⟨hne, n', hn', rfl⟩
    have hpush := keys_push e.env n uf
    rw [hkeys] at hpush
    obtain ⟨honce, -⟩ := h.added hkeys hcreates rfl
    rw [hpush, List.nodup_append] at honce
    have hcreated : n'.dedupeKey ∈ w.created := by
      rw [← hkeys]
      exact mem_keys.mpr ⟨hne, n', List.mem_of_mem_take hn', rfl⟩
    refine ⟨_, hagain htracks hcreates.1 n'.dedupeKey (List.mem_append_left _ hcreated) hne ?_⟩
    exact fun hthere => honce.2.2 _ hkey _ hthere rfl
  · obtain rfl := Except.ok.inj (huser.symm.trans huser')
    rw [hop] at hnot
    obtain ⟨n, ks, ks', hfind, hall, hrest⟩ := keys_eraseIdx hidx
    have hne : n.dedupeKey ≠ "" := fun hempty => hnot fun _ n' hfind' => by
      rw [hfind] at hfind'
      exact Option.some.inj hfind' ▸ hempty
    rw [hkeys, keys_singleton, if_neg hne, List.append_assoc] at hall
    have honce := h.once
    rw [hall] at honce
    have hcreated : n.dedupeKey ∈ w.created := by
      rw [hall]
      exact List.mem_append_right _ List.mem_cons_self
    refine ⟨_, hagain htracks (h.named (List.ne_nil_of_mem hcreated)) n.dedupeKey
      (List.mem_append_left _ hcreated) hne ?_⟩
    rw [hrest]
    exact (List.nodup_middle.mp honce).notMem

/-- **A key is made once**, whatever visits an inbox has, as long as none of them forgets a key;
and one that does lets the next reminder under the key come again. -/
theorem reminded_once {vs : List Visit}
    (hrun : Run (Watched.Happens userKey) (Retains userKey) .start vs w) :
    w.created.Nodup ∧ ∀ v, ¬ Retains userKey w v →
      ∃ key, ¬ ((w.visit userKey v).visit userKey (remindAgain key)).created.Nodup := by
  have h : Remembers userKey w := by
    refine hrun.invariant ⟨tracks_start, List.nodup_nil, fun hne => absurd rfl hne⟩ ?_
    rintro w v _ h hretains rfl
    exact h.visit hretains
  exact ⟨h.once, fun v hforgets => h.raised_again hforgets⟩

end Runs

/-! ## A reminder that was dismissed -/

def someone : Caller where
  userID := "u1"
  email := ""
  equalFold := fun a b => a = b

/-- A task that was due in 2020. -/
def lateTask : ProjectTask where
  task := { (default : Tasks.TaskHeader) with
    id := "t1", title := "Order parts", status := "todo", dueDate := "2020-01-01"
    assignee := some { id := "u1", name := "Ada", email := "" }, docRefs := [], dependsOn := [] }
  projectID := "p1"
  hubID := "h1"
  projectName := "Mill"

/-- A day of 2026. -/
def today : Time := 740000 * 86400 * 1000000000

/-- One look into the inbox. -/
def look : List Visit := reconcileTaskReminders someone today [({ now := today }, lateTask)]

def readAll : Visit := .call ⟨{ now := today }, .markAllRead⟩

theorem reminded_once_read : ∃ w, Run (Watched.Happens "u1") (Retains "u1") .start
    (look ++ [readAll]) w ∧ w.created = ["overdue:p1:t1:2020-01-01"] ∧ w.created.Nodup := by
  have hlook : Retains "u1" .start (.remind { now := today } someone today lateTask) := by
    intro e uf hevent huser
    unfold Visit.event at hevent
    obtain ⟨n, -, rfl⟩ := Option.map_eq_some_iff.mp hevent
    cases huser
    intro _ _ e he
    have hempty : outgoing [] = [] := List.take_nil
    exact absurd (hempty ▸ he) List.not_mem_nil
  have hread : ∀ w, Retains "u1" w readAll := by
    intro w e uf hevent huser
    obtain rfl := Option.some.inj hevent
    trivial
  have hrun : Run (Watched.Happens "u1") (Retains "u1") .start (look ++ [readAll]) _ :=
    .cons hlook rfl (.single (hread _) rfl)
  exact ⟨_, hrun, by decide +kernel, (reminded_once hrun).1⟩

/-- **A reminder that was dismissed comes again** with the next look into the inbox. -/
theorem dismissed_again :
    ∃ w, Run (Watched.Happens "u1") Lib.always .start
      (look ++ [.call ⟨{ now := today }, .delete "n1"⟩] ++ look) w ∧
      w.created = ["overdue:p1:t1:2020-01-01", "overdue:p1:t1:2020-01-01"] :=
  ⟨_, Run.foldl_always (Watched.visit "u1") _ .start, by decide +kernel⟩

end Notifications
