import FusionLocalServer.Chat.Cursors
import FusionLocalServer.Chat.Legible
import FusionLocalServer.Lib.Search

/-!
# What is unread

The channels of a project and the cursors of their readers. The messages of a channel are
numbered in their order, from 1 on, and its next number is read off its log; the cursors are
kept in another file, which nothing that happens to a log changes. So a cursor stands for
messages that were read as long as the log keeps these: where a log loses what was
acknowledged, its numbers are given again, below the cursors.
-/

namespace FusionLocalServer.Chat

open Lib Std Storage

/-! ## Channels and their readers -/

/-- The channels by their ids. -/
structure Reading where
  chs : String → Channel
  cursors : Cursors := {}

namespace Reading

/-- New channels, of which nothing was read. -/
def start (names : String → String) : Reading where
  chs := fun id => newChannel (names id)

def cursor (r : Reading) (userKey id : String) : Int := cursorOf r.cursors.table userKey id

/-- What is done with a loaded channel. -/
def onChannel {α : Type} (r : Reading) (env : Env) (id : String)
    (go : Reading → ChannelState → Reading × Except Err α) : Reading × Except Err α :=
  match (r.chs id).channelState env with
  | (ch, .error e) => ({ r with chs := Function.update r.chs id ch }, .error e)
  | (ch, .ok cs) => go { r with chs := Function.update r.chs id ch } cs

/-- `SetReadCursor`. -/
def setReadCursor (r : Reading) (env : Env) (menv : MetaEnv) (userKey id : String) (seq : Int) :
    Reading × Except Err (Unread × Bool) :=
  match checkRead userKey seq with
  | some e => (r, .error e)
  | none => r.onChannel env id fun r cs =>
    let answer := r.cursors.setReadCursor menv cs userKey id seq
    ({ r with cursors := answer.1 }, answer.2)

/-- `Unreads`, of one channel that is not archived. -/
def unreads (r : Reading) (env : Env) (menv : MetaEnv) (userKey id : String) :
    Reading × Except Err Unread :=
  r.onChannel env id fun r cs =>
    let answer := r.cursors.unread menv cs userKey id
    ({ r with cursors := answer.1 }, answer.2)

/-- The process starts anew. -/
def restart (r : Reading) : Reading where
  chs := fun id => { r.chs id with loaded := none }
  cursors := { r.cursors with memory := none }

inductive Event where
  | call (env : Env) (id : String) (op : Op)
  | setReadCursor (env : Env) (menv : MetaEnv) (userKey id : String) (seq : Int)
  | unreads (env : Env) (menv : MetaEnv) (userKey id : String)
  | restart
  /-- The process ends, and the log of a channel is left damaged. -/
  | crash (id : String) (bytes : List UInt8)

def exec (r : Reading) : Event → Reading
  | .call env id op => { r with chs := Function.update r.chs id (Chat.exec (r.chs id) env op) }
  | .setReadCursor env menv userKey id seq => (r.setReadCursor env menv userKey id seq).1
  | .unreads env menv userKey id => (r.unreads env menv userKey id).1
  | .restart => r.restart
  | .crash id bytes =>
    { r.restart with chs := Function.update r.restart.chs id ((r.chs id).damaged bytes) }

def Happens (r : Reading) (e : Event) (r' : Reading) : Prop := r.exec e = r'

/-- Nothing is lost that was read: no record is written behind a torn line, and a damaged tail
leaves the messages up to the cursors. The numbers of a channel do not run out. -/
def NothingReadLost (r : Reading) : Event → Prop
  | .call env id op => TailSafe (r.chs id) (env, op) ∧ (r.chs id).state.nextSeq < 2 ^ 63 - 1
  | .setReadCursor .. => True
  | .unreads .. => True
  | .restart => True
  | .crash id bytes => (∃ n, CutTo (r.chs id) bytes n) ∧
    ∀ userKey, r.cursor userKey id ≤ latestSeq ((r.chs id).damaged bytes).state

/-- What is to be told of a channel to a user. -/
def summary (r : Reading) (userKey id : String) : Unread where
  channelID := id
  lastReadSeq := r.cursor userKey id
  unreadCount := (r.chs id).state.msgs.countP fun m =>
    r.cursor userKey id < m.seq ∧ m.deletedAt = none
  latestSeq := latestSeq (r.chs id).state

/-- The cursors stand for what was read. -/
structure Faithful (r : Reading) : Prop where
  bounded : ∀ userKey id, r.cursor userKey id ≤ latestSeq (r.chs id).state
  forward : ∀ e, NothingReadLost r e →
    ∀ userKey id, r.cursor userKey id ≤ (r.exec e).cursor userKey id
  counted : ∀ env menv userKey id u, (r.unreads env menv userKey id).2 = .ok u →
    u = (r.unreads env menv userKey id).1.summary userKey id
  moved : ∀ env menv userKey id seq u advanced,
    (r.setReadCursor env menv userKey id seq).2 = .ok (u, advanced) →
      u = (r.setReadCursor env menv userKey id seq).1.summary userKey id
  /-- A message that is created is live, and past every cursor. -/
  unread : ∀ env id authorID authorName clientMsgID body threadRoot ch m,
    (Store.createMessage env.now authorID authorName clientMsgID body threadRoot).run
      (r.chs id) env = (ch, .ok (m, true)) →
    (∀ userKey, r.cursor userKey id < m.seq) ∧
      ∃ m' ∈ ch.state.msgs, m'.seq = m.seq ∧ m'.deletedAt = none

end Reading

/-! ## Counting -/

section Counting

variable {recs : List Record}

theorem Numbered.latestSeq (h : Numbered recs) :
    latestSeq (replayMessages recs) = (creations recs).length := by
  unfold Chat.latestSeq decr64
  rw [h.nextSeq, if_neg (by omega)]
  omega

/-- What is counted from the end are the live messages past the cursor. -/
theorem Numbered.unreadCount (h : Numbered recs) (channelID : String) (cursor : Int) :
    (unreadLocked (replayMessages recs) channelID cursor).unreadCount =
      (replayMessages recs).msgs.countP fun m => cursor < m.seq ∧ m.deletedAt = none := by
  have hsorted : (replayMessages recs).msgs.Pairwise fun a b =>
      decide (cursor < a.seq) = true → decide (cursor < b.seq) = true := by
    rw [List.pairwise_iff_getElem]
    intro i j hi hj hij
    rw [decide_eq_true_iff, decide_eq_true_iff, h.msg (List.getElem?_eq_getElem hi),
      h.msg (List.getElem?_eq_getElem hj)]
    omega
  show List.countP _ (List.takeWhile _ _) = _
  rw [takeWhile_reverse hsorted, List.countP_reverse, List.countP_filter]
  refine List.countP_congr fun m _ => ?_
  simp [and_comm]

end Counting

/-! ## The file of the cursors -/

/-- The file is one that the store has written, and memory holds what it says. -/
structure Cursors.Kept (c : Cursors) : Prop where
  disk : ∀ stored, c.disk = some stored → ∃ cf, stored = .file cf ∧ cf.version = cursorsVersion
  memory : ∀ cf, c.memory = some cf → cf.version = cursorsVersion ∧
    ∀ userKey id, cursorOf cf.cursors userKey id =
      cursorOf ({ c with memory := none } : Cursors).table userKey id

namespace Cursors.Kept

variable {c : Cursors}

theorem start : Kept {} := ⟨fun _ h => (nomatch h), fun _ h => (nomatch h)⟩

theorem forget (h : Kept c) : Kept { c with memory := none } :=
  ⟨h.disk, fun _ hmemory => (nomatch hmemory)⟩

/-- The cursors are read back as they were. -/
theorem cursorOf_forget (h : Kept c) (userKey id : String) :
    cursorOf ({ c with memory := none } : Cursors).table userKey id =
      cursorOf c.table userKey id := by
  obtain ⟨memory, disk⟩ := c
  cases memory with
  | none => rfl
  | some cf => exact ((h.memory cf rfl).2 userKey id).symm

theorem ensure (h : Kept c) (env : MetaEnv) :
    Kept (c.ensure env).1 ∧ (c.ensure env).1.table = c.table ∧
      ∀ cf, (c.ensure env).2 = .ok cf →
        (c.ensure env).1.memory = some cf ∧ cf.cursors = c.table := by
  obtain ⟨memory, disk⟩ := c
  unfold Cursors.ensure
  cases memory with
  | some cf =>
    refine ⟨h, rfl, fun cf' hok => ?_⟩
    cases hok
    exact ⟨rfl, rfl⟩
  | none =>
    dsimp only
    unfold loadCursors
    by_cases hread : env.readFails = true
    · rw [if_pos hread]
      exact ⟨h, rfl, fun _ hok => (nomatch hok)⟩
    · rw [if_neg hread]
      cases disk with
      | none =>
        refine ⟨⟨h.disk, fun cf hcf => ?_⟩, rfl, fun cf hok => ?_⟩
        · cases hcf
          exact ⟨rfl, fun _ _ => rfl⟩
        · cases hok
          exact ⟨rfl, rfl⟩
      | some stored =>
        obtain ⟨cf, rfl, hversion⟩ := h.disk stored rfl
        have hmigrates : cf.Migrates env := .inl hversion
        dsimp only
        rw [if_neg (by rw [hversion]; decide), if_pos hmigrates]
        refine ⟨⟨h.disk, fun cf' hcf => ?_⟩, rfl, fun cf' hok => ?_⟩
        · cases hcf
          exact ⟨rfl, fun _ _ => rfl⟩
        · cases hok
          exact ⟨rfl, rfl⟩

/-- A cursor that could not be saved is put back. -/
theorem undone (h : Kept c) (cf : CursorsFile) (userKey id : String) (new : Int)
    (hversion : cf.version = cursorsVersion) (hcursors : cf.cursors = setCursor c.table userKey id new) :
    Kept (({ c with memory := some cf } : Cursors).put userKey id (cursorOf c.table userKey id)) ∧
      ∀ user channel, cursorOf (({ c with memory := some cf } : Cursors).put userKey id
        (cursorOf c.table userKey id)).table user channel = cursorOf c.table user channel := by
  have hsame : ∀ user channel, cursorOf
      (setCursor cf.cursors userKey id (cursorOf c.table userKey id)) user channel =
        cursorOf c.table user channel := by
    intro user channel
    rw [cursorOf_setCursor, hcursors, cursorOf_setCursor]
    split
    · next heq => rw [heq.1, heq.2]
    · rfl
  refine ⟨⟨h.disk, fun cf' hcf => ?_⟩, hsame⟩
  cases hcf
  exact ⟨hversion, fun user channel =>
    (hsame user channel).trans (h.cursorOf_forget user channel).symm⟩

/-- A call moves one cursor forward, not past the newest message, or leaves it. -/
theorem setReadCursor (h : Kept c) (env : MetaEnv) (cs : ChannelState) (userKey id : String)
    (seq : Int) :
    Kept (c.setReadCursor env cs userKey id seq).1 ∧
    ∃ new, (∀ user channel, cursorOf (c.setReadCursor env cs userKey id seq).1.table user channel =
        if userKey = user ∧ id = channel then new else cursorOf c.table user channel) ∧
      cursorOf c.table userKey id ≤ new ∧
      (new = cursorOf c.table userKey id ∨ new ≤ latestSeq cs) ∧
      ∀ u advanced, (c.setReadCursor env cs userKey id seq).2 = .ok (u, advanced) →
        u = unreadLocked cs id new := by
  have hsame : ∀ user channel, cursorOf c.table user channel =
      if userKey = user ∧ id = channel then cursorOf c.table userKey id
      else cursorOf c.table user channel := by
    intro user channel
    split
    · next heq => rw [heq.1, heq.2]
    · rfl
  obtain ⟨hkept, htable, hok⟩ := h.ensure env
  unfold Cursors.setReadCursor
  cases hensure : c.ensure env with
  | mk c₁ result =>
    rw [hensure] at hkept htable hok
    cases result with
    | error e =>
      refine ⟨hkept, _, fun user channel => ?_, Int.le_refl _, .inl rfl, fun _ _ h => (nomatch h)⟩
      rw [show c₁.table = c.table from htable]
      exact hsame user channel
    | ok cf =>
      obtain ⟨hmemory, hcursors⟩ := hok cf rfl
      dsimp only
      rw [hcursors]
      generalize hnew : (if latestSeq cs < seq then latestSeq cs else seq) = new
      have hle : new ≤ latestSeq cs := by
        rw [← hnew]
        split
        · exact Int.le_refl _
        · next hge => exact Int.not_lt.mp hge
      split
      · next hlt =>
        have hversion := (hkept.memory cf hmemory).1
        unfold Cursors.save
        -- the cursor goes back when the directory cannot be made, or the file not be written
        by_cases hdir : env.dirFails = true
        · rw [if_pos hdir]
          obtain ⟨hundone, hcursor⟩ := hkept.undone
            { cf with cursors := setCursor c.table userKey id new } userKey id new hversion
            (htable.symm ▸ rfl)
          rw [show c₁.table = c.table from htable] at hundone hcursor
          refine ⟨hundone, _, fun user channel => ?_, Int.le_refl _, .inl rfl,
            fun _ _ h => (nomatch h)⟩
          rw [← hsame user channel]
          exact hcursor user channel
        rw [if_neg hdir]
        dsimp only
        by_cases hsave : env.saveFails = true
        · rw [if_pos hsave]
          obtain ⟨hundone, hcursor⟩ := hkept.undone
            { cf with
              cursors := setCursor c.table userKey id new, schema := cf.schema.touch env.toEnv }
            userKey id new hversion (htable.symm ▸ rfl)
          rw [show c₁.table = c.table from htable] at hundone hcursor
          refine ⟨hundone, _, fun user channel => ?_, Int.le_refl _, .inl rfl,
            fun _ _ h => (nomatch h)⟩
          rw [← hsame user channel]
          exact hcursor user channel
        · rw [if_neg hsave]
          refine ⟨⟨fun stored hstored => ?_, fun cf' hcf => ?_⟩, new, fun user channel => ?_,
            Int.le_of_lt hlt, .inr hle, ?_⟩
          · cases hstored
            exact ⟨_, rfl, hversion⟩
          · cases hcf
            exact ⟨hversion, fun _ _ => rfl⟩
          · exact cursorOf_setCursor _ _ _ _ _ _
          · rintro _ _ ⟨⟩
            rfl
      · refine ⟨hkept, _, fun user channel => ?_, Int.le_refl _, .inl rfl, ?_⟩
        · rw [show c₁.table = c.table from htable]
          exact hsame user channel
        · rintro _ _ ⟨⟩
          rfl

end Cursors.Kept

/-! ## Every state -/

namespace Reading

/-- What holds in every state. -/
structure Good (r : Reading) : Prop where
  legible : ∀ id, Legible (r.chs id)
  numbered : ∀ id, Numbered (r.chs id).acked
  cursors : r.cursors.Kept
  bounded : ∀ userKey id, r.cursor userKey id ≤ (creations (r.chs id).acked).length

namespace Good

variable {r : Reading}

theorem start (names : String → String) : Good (Reading.start names) where
  legible _ := (synced_newChannel _).legible
  numbered _ := .nil
  cursors := .start
  bounded userKey id := Int.le_of_eq (cursorOf_empty userKey id)

theorem latestSeq_eq (h : Good r) (id : String) :
    latestSeq (r.chs id).state = (creations (r.chs id).acked).length := by
  rw [(h.legible id).state_eq, (h.numbered id).latestSeq]

/-- A channel that goes on. -/
theorem update (h : Good r) {id : String} {ch : Channel} (hlegible : Legible ch)
    (hon : GoesOn (r.chs id).acked ch.acked) :
    Good { r with chs := Function.update r.chs id ch } := by
  refine ⟨(Function.forall_update_iff r.chs (p := fun _ ch => Legible ch)).mpr
      ⟨hlegible, fun id _ => h.legible id⟩,
    (Function.forall_update_iff r.chs (p := fun _ ch => Numbered ch.acked)).mpr
      ⟨hon.numbered, fun id _ => h.numbered id⟩, h.cursors, fun userKey => ?_⟩
  refine (Function.forall_update_iff r.chs
    (p := fun id ch => r.cursor userKey id ≤ (creations ch.acked).length)).mpr
      ⟨?_, fun id _ => h.bounded userKey id⟩
  have hbounded := h.bounded userKey id
  have hmore := hon.more
  omega

theorem load (h : Good r) (env : Env) (id : String) :
    Good { r with chs := Function.update r.chs id ((r.chs id).channelState env).1 } := by
  obtain ⟨hlegible, hacked, -⟩ := (h.legible id).channelState env
  exact h.update hlegible (hacked.symm ▸ ⟨h.numbered id, Nat.le_refl _⟩)

/-- What is counted of a loaded channel is what is to be told. -/
theorem summary_eq (h : Good r) (userKey id : String) {cs : ChannelState}
    (hcs : cs = replayMessages (r.chs id).acked) :
    unreadLocked cs id (r.cursor userKey id) = r.summary userKey id := by
  have hcount := (h.numbered id).unreadCount id (r.cursor userKey id)
  unfold summary
  rw [hcs, (h.legible id).state_eq, ← hcount]
  rfl

/-- What is done with a loaded channel, as it is when it is loaded. -/
theorem onChannel {α : Type} (h : Good r) (env : Env) (id : String)
    {go : Reading → ChannelState → Reading × Except Err α} {P : Reading × Except Err α → Prop}
    (hfail : ∀ r' e, Good r' → r'.cursors = r.cursors → P (r', .error e))
    (hgo : ∀ r' cs, Good r' → r'.cursors = r.cursors → cs = replayMessages (r'.chs id).acked →
      P (go r' cs)) : P (r.onChannel env id go) := by
  have hload := h.load env id
  obtain ⟨-, hacked, hok⟩ := (h.legible id).channelState env
  unfold Reading.onChannel
  cases hst : (r.chs id).channelState env with
  | mk ch result =>
    rw [hst] at hload hacked hok
    cases result with
    | error e => exact hfail _ e hload rfl
    | ok cs =>
      refine hgo _ cs hload rfl ?_
      dsimp only
      rw [Function.update_self, (hok cs rfl).1]
      exact congrArg replayMessages hacked.symm

/-- The answer to a read, and what it leaves. -/
structure Answer {α : Type} (r : Reading) (userKey id : String) (told : α → Unread)
    (answer : Reading × Except Err α) : Prop where
  good : Good answer.1
  forward : ∀ user channel, r.cursor user channel ≤ answer.1.cursor user channel
  told : ∀ a, answer.2 = .ok a → told a = answer.1.summary userKey id

theorem unreads (h : Good r) (env : Env) (menv : MetaEnv) (userKey id : String) :
    Answer r userKey id (fun u => u) (r.unreads env menv userKey id) := by
  refine h.onChannel env id (fun r' e hr' hsame => ?_) fun r' cs hr' hsame hcs => ?_
  · refine ⟨hr', fun user channel => Int.le_of_eq ?_, fun _ hok => (nomatch hok)⟩
    unfold cursor
    rw [hsame]
  · obtain ⟨hkept, htable, hok⟩ := hr'.cursors.ensure menv
    unfold Cursors.unread
    cases hensure : r'.cursors.ensure menv with
    | mk c result =>
      rw [hensure] at hkept htable hok
      have hcursor : ∀ user channel, cursorOf c.table user channel = r'.cursor user channel :=
        fun user channel => congrArg (cursorOf · user channel) htable
      have hgood : Good { r' with cursors := c } :=
        ⟨hr'.legible, hr'.numbered, hkept, fun user channel =>
          (hcursor user channel).trans_le (hr'.bounded user channel)⟩
      have hforward : ∀ user channel,
          r.cursor user channel ≤ ({ r' with cursors := c } : Reading).cursor user channel := by
        intro user channel
        show _ ≤ cursorOf c.table user channel
        rw [hcursor]
        unfold cursor
        rw [hsame]
      cases result with
      | error e => exact ⟨hgood, hforward, fun _ hok => (nomatch hok)⟩
      | ok cf =>
        refine ⟨hgood, hforward, fun u hu => ?_⟩
        cases hu
        rw [← hgood.summary_eq userKey id hcs, (hok cf rfl).2]
        show unreadLocked cs id (r'.cursor userKey id) = unreadLocked cs id (cursorOf c.table userKey id)
        rw [hcursor]

theorem setReadCursor (h : Good r) (env : Env) (menv : MetaEnv) (userKey id : String) (seq : Int) :
    Answer r userKey id (fun answer => answer.1) (r.setReadCursor env menv userKey id seq) := by
  unfold Reading.setReadCursor
  split
  · exact ⟨h, fun _ _ => Int.le_refl _, fun _ hok => (nomatch hok)⟩
  refine h.onChannel env id (fun r' e hr' hsame => ?_) fun r' cs hr' hsame hcs => ?_
  · refine ⟨hr', fun user channel => Int.le_of_eq ?_, fun _ hok => (nomatch hok)⟩
    unfold cursor
    rw [hsame]
  · obtain ⟨hkept, new, hcursor, hforward, hbounded, hok⟩ :=
      hr'.cursors.setReadCursor menv cs userKey id seq
    have hlatest : latestSeq cs = (creations (r'.chs id).acked).length := by
      rw [hcs, (hr'.numbered id).latestSeq]
    have hgood : Good { r' with cursors := (r'.cursors.setReadCursor menv cs userKey id seq).1 } := by
      refine ⟨hr'.legible, hr'.numbered, hkept, fun user channel => ?_⟩
      show cursorOf (r'.cursors.setReadCursor menv cs userKey id seq).1.table user channel ≤ _
      rw [hcursor]
      split
      · next heq =>
        obtain ⟨rfl, rfl⟩ := heq
        rcases hbounded with rfl | hle
        · exact hr'.bounded userKey id
        · exact hlatest ▸ hle
      · exact hr'.bounded user channel
    refine ⟨hgood, fun user channel => ?_, fun answer hanswer => ?_⟩
    · show _ ≤ cursorOf (r'.cursors.setReadCursor menv cs userKey id seq).1.table user channel
      rw [hcursor]
      unfold cursor
      rw [← hsame]
      split
      · next heq =>
        obtain ⟨rfl, rfl⟩ := heq
        exact hforward
      · exact Int.le_refl _
    · rw [← hgood.summary_eq userKey id hcs, hok answer.1 answer.2 hanswer]
      show unreadLocked cs id new = unreadLocked cs id
        (cursorOf (r'.cursors.setReadCursor menv cs userKey id seq).1.table userKey id)
      rw [hcursor, if_pos ⟨rfl, rfl⟩]

theorem restart (h : Good r) :
    Good r.restart ∧ ∀ userKey id, r.restart.cursor userKey id = r.cursor userKey id :=
  ⟨⟨fun id => (h.legible id).unload, h.numbered, h.cursors.forget, fun userKey id =>
    (h.cursors.cursorOf_forget userKey id).trans_le (h.bounded userKey id)⟩,
    h.cursors.cursorOf_forget⟩

/-- Every event that loses nothing read keeps the state good, and takes no cursor back. -/
theorem exec (h : Good r) {e : Event} (hok : NothingReadLost r e) :
    Good (r.exec e) ∧ ∀ userKey id, r.cursor userKey id ≤ (r.exec e).cursor userKey id := by
  cases e with
  | call env id op =>
    obtain ⟨hsafe, hfew⟩ := hok
    have hon := (h.legible id).goesOn (h.numbered id) hfew env op
    exact ⟨h.update ((h.legible id).exec hsafe) hon, fun _ _ => Int.le_refl _⟩
  | setReadCursor env menv userKey id seq =>
    have hanswer := h.setReadCursor env menv userKey id seq
    exact ⟨hanswer.good, hanswer.forward⟩
  | unreads env menv userKey id =>
    have hanswer := h.unreads env menv userKey id
    exact ⟨hanswer.good, hanswer.forward⟩
  | restart =>
    obtain ⟨hgood, hcursor⟩ := h.restart
    exact ⟨hgood, fun userKey id => Int.le_of_eq (hcursor userKey id).symm⟩
  | crash id bytes =>
    obtain ⟨⟨n, hcut⟩, hread⟩ := hok
    obtain ⟨hgood, hcursor⟩ := h.restart
    obtain ⟨hlegible, hacked⟩ := (h.legible id).damaged hcut
    have hnum : Numbered ((r.chs id).damaged bytes).acked := by
      rw [hacked]
      exact (h.numbered id).of_isPrefix (List.take_prefix n _)
    refine ⟨⟨(Function.forall_update_iff r.restart.chs (p := fun _ ch => Legible ch)).mpr
        ⟨hlegible, fun id _ => hgood.legible id⟩,
      (Function.forall_update_iff r.restart.chs (p := fun _ ch => Numbered ch.acked)).mpr
        ⟨hnum, fun id _ => hgood.numbered id⟩, hgood.cursors, fun userKey => ?_⟩,
      fun userKey id' => Int.le_of_eq (hcursor userKey id').symm⟩
    refine (Function.forall_update_iff r.restart.chs
      (p := fun id ch => r.restart.cursor userKey id ≤ (creations ch.acked).length)).mpr
        ⟨?_, fun id _ => hgood.bounded userKey id⟩
    rw [hcursor, ← hnum.latestSeq, ← hlegible.state_eq]
    exact hread userKey

end Good

/-- **The cursors stand for what was read** in every state, as long as nothing that was read is
lost: none is past the newest message or moves backwards, what is told to be unread are the live
messages past the cursor, and a new message is among them. -/
theorem cursors_faithful (names : String → String) {es : List Event} {r : Reading}
    (h : Run Happens NothingReadLost (start names) es r) : Faithful r := by
  have hgood : Good r := by
    refine h.invariant (Good.start names) ?_
    rintro r e _ hr hok rfl
    exact (hr.exec hok).1
  refine ⟨fun userKey id => ?_, fun e hok => (hgood.exec hok).2, fun env menv userKey id u hu => ?_,
    fun env menv userKey id seq u advanced hu => ?_, ?_⟩
  · rw [hgood.latestSeq_eq]
    exact hgood.bounded userKey id
  · exact (hgood.unreads env menv userKey id).told u hu
  · exact (hgood.setReadCursor env menv userKey id seq).told (u, advanced) hu
  · intro env id authorID authorName clientMsgID body threadRoot ch m hrun
    obtain ⟨-, -, hload⟩ := (hgood.legible id).channelState env
    have hran := (Store.createMessage env.now authorID authorName clientMsgID body threadRoot).ran
      (r.chs id) env
    rw [hrun] at hran
    cases hran with
    | replied _ _ hplan => exact absurd (createMessage_reply hplan) (by decide)
    | @written ch₁ cs next record _ f _ hst hplan _ =>
      rw [hst] at hload
      obtain ⟨-, hseq, hlive⟩ := createMessage_numbers hplan
      refine ⟨fun userKey => ?_, hlive⟩
      have hbounded := hgood.bounded userKey id
      rw [hseq, (hload cs rfl).1, (hgood.numbered id).nextSeq]
      omega

/-- A message, a crash that loses it before it was read, and another message. -/
def unreadRun : List Event :=
  [.call (callEnv .full) "c1" (.create "u1" "Ada" "m1" "first" 0),
   .crash "c1" [120],
   .call (callEnv .full) "c1" (.create "u1" "Ada" "m2" "second" 0)]

def everyChannel : Reading := start fun _ => "general"

theorem cursors_faithful_unread :
    ((unreadRun.foldl exec everyChannel).unreads (callEnv .full) { now := 0 } "u2" "c1").2 =
        .ok { channelID := "c1", lastReadSeq := 0, unreadCount := 1, latestSeq := 1 } ∧
      Faithful (unreadRun.foldl exec everyChannel) := by
  have hrun : Run Happens NothingReadLost everyChannel unreadRun
      (unreadRun.foldl exec everyChannel) := by
    refine .cons ⟨fun _ _ h => (nomatch h), by decide +kernel⟩ rfl
      (.cons ⟨⟨0, [], [120], rfl, .nil, .unfinished rfl⟩, fun userKey => ?_⟩ rfl
        (.single ⟨fun _ _ h => (nomatch h), by decide +kernel⟩ rfl))
    refine (show cursorOf ∅ userKey "c1" ≤ _ from ?_)
    rw [cursorOf_empty]
    decide +kernel
  exact ⟨by decide +kernel, cursors_faithful _ hrun⟩

/-- Three messages, the second written in part only and the third behind it; they are read, and
the process starts anew. -/
def overtakenRun : List Event :=
  tornRun.map (fun e => .call e.1 "c1" e.2) ++
    [.setReadCursor (callEnv .full) { now := 0 } "u2" "c1" 2, .restart]

def overtaken : Reading := overtakenRun.foldl exec everyChannel

/-- **A cursor is past the newest message**, where the log has lost one that was read; and the
next message is told to be read. -/
theorem cursor_overtakes :
    Run Happens always everyChannel overtakenRun overtaken ∧
      overtaken.cursor "u2" "c1" = 2 ∧ latestSeq (overtaken.chs "c1").state = 1 ∧
      let answered := overtaken.exec (.call (callEnv .full) "c1" (.create "u1" "Ada" "m4" "new" 0))
      (answered.chs "c1").state.msgs.map (fun m => (m.seq, m.body)) = [(1, "first"), (2, "new")] ∧
      (answered.unreads (callEnv .full) { now := 0 } "u2" "c1").2 =
        .ok { channelID := "c1", lastReadSeq := 2, unreadCount := 0, latestSeq := 2 } := by
  exact ⟨Run.foldl_always exec overtakenRun everyChannel, by decide +kernel, by decide +kernel,
    by decide +kernel, by decide +kernel⟩

end Reading

end FusionLocalServer.Chat
