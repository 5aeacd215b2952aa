import Mathlib.Algebra.Order.Ring.Int
import FusionLocalServer.Chat.Legible
import FusionLocalServer.Lib.Pages

/-!
# Reading a channel back (`ListMessages`, `ListMessagesAfter`, `LatestSeq` of `chat/store.go`)

A reader takes the timeline page by page, from the newest page back, each page before the
oldest message it has. Others post, edit, delete and react in the meantime, and the process
may start anew. What stays of a message is its `fixed` part; the rest is as it was when the
page was read.

- `timeline_paged`: a reader has every message of the timeline from its cursor on that was there
  when it began, each once and in order, and all of them when it comes to an empty page.
- `poll_whole_iff`: the answer to a poll has everything up to the number it ends with just when
  nothing was posted between the two reads it is made of.
-/

namespace FusionLocalServer.Chat

open Lib

/-! ## The reads -/

/-- The loop of `ListMessages`, over the messages from the newest on. -/
def collectBefore (beforeSeq : Int) : Nat → List Message → List Message
  | 0, _ => []
  | _ + 1, [] => []
  | n + 1, m :: ms =>
    if m.threadRoot ≠ 0 then collectBefore beforeSeq (n + 1) ms
    else if 0 < beforeSeq ∧ beforeSeq ≤ m.seq then collectBefore beforeSeq (n + 1) ms
    else m :: collectBefore beforeSeq n ms

/-- The size of a page: 50 messages when nothing is asked for, and 200 at most. -/
def pageLimit (limit : Int) : Nat :=
  let limit := if limit ≤ 0 then 50 else limit
  (if 200 < limit then 200 else limit).toNat

namespace ChannelState

/-- `ListMessages` -/
def listMessages (cs : ChannelState) (beforeSeq limit : Int) : List Message :=
  (collectBefore beforeSeq (pageLimit limit) cs.msgs.reverse).reverse

/-- `ListMessagesAfter` -/
def listMessagesAfter (cs : ChannelState) (afterSeq : Int) : List Message :=
  cs.msgs.filter fun m => afterSeq < m.seq

/-- `LatestSeq` -/
def latestSeq (cs : ChannelState) : Int := cs.nextSeq - 1

end ChannelState

/-- A read of a channel, loaded when it has to be. -/
def Channel.read {α : Type} (ch : Channel) (env : Env) (get : ChannelState → α) :
    Channel × Except Err α :=
  match ch.channelState env with
  | (ch, .error e) => (ch, .error e)
  | (ch, .ok cs) => (ch, .ok (get cs))

theorem ok_of_toOption {ε α : Type} {result : Except ε α} {a : α} (h : result.toOption = some a) :
    result = .ok a := by
  cases result with
  | error e => cases h
  | ok b =>
    cases h
    rfl

theorem pageLimit_pos (limit : Int) : 0 < pageLimit limit := by
  unfold pageLimit
  dsimp only
  split <;> split <;> omega

/-- The messages that are no replies. -/
def topLevel (msgs : List Message) : List Message := msgs.filter fun m => m.threadRoot = 0

theorem collectBefore_eq (beforeSeq : Int) (n : Nat) (ms : List Message) :
    collectBefore beforeSeq n ms =
      ((topLevel ms).filter fun m => ¬ (0 < beforeSeq ∧ beforeSeq ≤ m.seq)).take n := by
  induction n, ms using collectBefore.induct beforeSeq with
  | case1 ms => rw [collectBefore, List.take_zero]
  | case2 n => rw [collectBefore, topLevel, List.filter_nil, List.filter_nil, List.take_nil]
  | case3 n m ms hreply ih =>
    rw [collectBefore, if_pos hreply, ih, topLevel, topLevel, List.filter_cons_of_neg (by simpa using hreply)]
  | case4 n m ms hreply hnew ih =>
    rw [collectBefore, if_neg hreply, if_pos hnew, ih, topLevel, topLevel,
      List.filter_cons_of_pos (by simpa using hreply), List.filter_cons_of_neg (by simpa using hnew)]
  | case5 n m ms hreply hold ih =>
    rw [collectBefore, if_neg hreply, if_neg hold, ih, topLevel, topLevel,
      List.filter_cons_of_pos (by simpa using hreply),
      List.filter_cons_of_pos (p := fun m : Message => decide ¬ (0 < beforeSeq ∧ beforeSeq ≤ m.seq))
        (decide_eq_true hold), List.take_succ_cons]

/-- A page is one of the timeline; the first comes before whatever is above all messages. -/
theorem listMessages_eq (cs : ChannelState) {beforeSeq cursor : Int} (limit : Int)
    (hcursor : (0 < beforeSeq ∧ cursor = beforeSeq) ∨
      (beforeSeq = 0 ∧ ∀ m ∈ cs.msgs, m.seq < cursor)) :
    cs.listMessages beforeSeq limit =
      Pages.page (·.seq) (pageLimit limit) cursor (topLevel cs.msgs) := by
  unfold ChannelState.listMessages Pages.page
  rw [collectBefore_eq, List.rtake_eq_reverse_take_reverse, topLevel, List.filter_reverse,
    List.filter_reverse, ← topLevel]
  refine congrArg (fun ms => (List.take _ (List.reverse ms)).reverse) (List.filter_congr fun m hm => ?_)
  rcases hcursor with ⟨hpos, rfl⟩ | ⟨rfl, habove⟩
  · simp [hpos]
  · simpa using habove m (List.mem_of_mem_filter hm)

/-! ## What stays of a message -/

/-- A message without what may change of it. -/
def Message.fixed (m : Message) : Message :=
  { m with
    body := "", editedAt := none, deletedAt := none, replyCount := 0, lastReplyAt := none, reactions := [] }

/-- The message of a record of creation, without what may change of it. -/
def Record.fixed (rec : Record) : Message :=
  { seq := rec.seq, threadRoot := rec.threadRoot, authorID := rec.authorID,
    authorName := rec.authorName, clientMsgID := rec.clientMsgID, body := "",
    createdAt := rec.at', editedAt := none, deletedAt := none, replyCount := 0, lastReplyAt := none,
    reactions := [] }

/-- What an update leaves alone is the same in all messages. -/
theorem update_map {β : Type} {cs : ChannelState} {i : Nat} {f : Message → Message} {g : Message → β}
    (hf : ∀ m, g (f m) = g m) : (cs.update i f).msgs.map g = cs.msgs.map g := by
  show (cs.msgs.modify i f).map _ = _
  refine List.ext_getElem? fun j => ?_
  rw [List.getElem?_map, List.getElem?_map, List.getElem?_modify]
  cases cs.msgs[j]? with
  | none => rfl
  | some m =>
    show some (g (if i = j then f m else m)) = some (g m)
    split
    · rw [hf]
    · rfl

theorem replayCreate_fixed (cs : ChannelState) (rec : Record) :
    (replayCreate cs rec).msgs.map Message.fixed = cs.msgs.map Message.fixed ++ [rec.fixed] := by
  unfold replayCreate
  dsimp only
  split
  · split
    · rw [update_map (f := fun root => { root with
        replyCount := incr64 root.replyCount, lastReplyAt := some rec.at' }) fun _ => rfl, List.map_append]
      rfl
    · rw [List.map_append]
      rfl
  · rw [List.map_append]
    rfl

/-- Only a record of creation makes a difference. -/
theorem replayRecord_fixed (cs : ChannelState) (rec : Record) :
    (replayRecord cs rec).msgs.map Message.fixed =
      cs.msgs.map Message.fixed ++ if rec.op = opCreate then [rec.fixed] else [] := by
  by_cases h : rec.op = opCreate
  · rw [if_pos h, replayRecord_create h, replayCreate_fixed]
  · rw [if_neg h, List.append_nil, replayRecord, if_neg h]
    split
    · unfold replayEdit
      split
      · split
        · exact update_map fun _ => rfl
        · rfl
      · rfl
    split
    · unfold replayDelete
      split
      · next i m _ =>
        split
        · have hgone : (cs.update i fun m =>
              { m with deletedAt := some rec.at', body := "", reactions := [] }).msgs.map Message.fixed =
              cs.msgs.map Message.fixed := update_map fun _ => rfl
          dsimp only
          split
          · split
            · exact (update_map (f := fun root => { root with
                replyCount := root.replyCount - 1 }) fun _ => rfl).trans hgone
            · exact hgone
          · exact hgone
        · rfl
      · rfl
    split
    · unfold replayReact
      split
      · split
        · exact update_map fun _ => rfl
        · rfl
      · rfl
    split
    · unfold replayUnreact
      split
      · exact update_map fun _ => rfl
      · rfl
    · rfl

/-- What stays of the messages of a log. -/
def fixedOf (recs : List Record) : List Message := (replayMessages recs).msgs.map Message.fixed

theorem fixedOf_snoc (recs : List Record) (rec : Record) :
    fixedOf (recs ++ [rec]) = fixedOf recs ++ if rec.op = opCreate then [rec.fixed] else [] := by
  unfold fixedOf
  rw [replayMessages_snoc, replayRecord_fixed]

theorem topLevel_fixed (ms : List Message) :
    topLevel (ms.map Message.fixed) = (topLevel ms).map Message.fixed := by
  unfold topLevel
  rw [List.filter_map]
  rfl

/-! ## Growing -/

variable {ch : Channel}

/-- What is checked of a message before it is appended. -/
structure Posted (cs : ChannelState) (rec : Record) : Prop where
  seq : rec.seq = cs.nextSeq
  root : checkRoot cs rec.threadRoot = none

theorem Legible.appended_run {α : Type} {mt : Mutator α} (h : Legible ch) (env : Env)
    (hplan : ∀ ch₁ record next result,
      mt.plan ch₁ (replayMessages ch.acked) = .ok (.write record next result) →
      record.op = opCreate → Posted (replayMessages ch.acked) record) :
    (mt.run ch env).1.acked = ch.acked ∨ ∃ rec, (mt.run ch env).1.acked = ch.acked ++ [rec] ∧
      (rec.op = opCreate → Posted (replayMessages ch.acked) rec) := by
  obtain ⟨-, hacked, hload⟩ := h.channelState env
  have hran := mt.ran ch env
  generalize mt.run ch env = out at hran
  cases hran with
  | refused _ => exact .inl rfl
  | unloaded _ hst => rw [hst] at hacked; exact .inl hacked
  | failed _ hst _ => rw [hst] at hacked; exact .inl hacked
  | replied _ hst _ => rw [hst] at hacked; exact .inl hacked
  | torn _ hst _ _ => rw [hst] at hacked; exact .inl hacked
  | @written ch₁ cs next record result f _ hst hwrite _ =>
    rw [hst] at hacked hload
    obtain ⟨rfl, -⟩ := hload cs rfl
    exact .inr ⟨record, congrArg (· ++ [record]) hacked, hplan ch₁ record next result hwrite⟩

theorem createMessage_posted {now : Time} {authorID authorName clientMsgID body : String}
    {threadRoot : Int} {cs next : ChannelState} {record : Record} {result : Message × Bool}
    (h : (Store.createMessage now authorID authorName clientMsgID body threadRoot).plan ch cs =
      .ok (.write record next result)) : Posted cs record := by
  refine ⟨(createMessage_numbers h).1, ?_⟩
  unfold Store.createMessage at h
  dsimp only at h
  split at h
  · cases h
  split at h
  · cases h
  split at h
  · cases h
  · next hroot =>
    obtain ⟨rfl, -⟩ := write_inj h
    exact hroot

/-- A call appends one record at most. -/
theorem Legible.appended (h : Legible ch) (env : Env) (op : Op) :
    (Chat.exec ch env op).acked = ch.acked ∨ ∃ rec, (Chat.exec ch env op).acked = ch.acked ++ [rec] ∧
      (rec.op = opCreate → Posted (replayMessages ch.acked) rec) := by
  cases op with
  | create => exact h.appended_run env fun _ _ _ _ hplan _ => createMessage_posted hplan
  | edit seq body =>
    exact h.appended_run env fun _ _ _ _ hplan hop =>
      absurd hop (createsNone_editMessage env.now seq body _ _ _ _ _ hplan)
  | delete seq =>
    exact h.appended_run env fun _ _ _ _ hplan hop =>
      absurd hop (createsNone_deleteMessage env.now seq _ _ _ _ _ hplan)
  | react seq userID emoji =>
    exact h.appended_run env fun _ _ _ _ hplan hop =>
      absurd hop (createsNone_addReaction env.now seq userID emoji _ _ _ _ _ hplan)
  | unreact seq userID emoji =>
    exact h.appended_run env fun _ _ _ _ hplan hop =>
      absurd hop (createsNone_removeReaction env.now seq userID emoji _ _ _ _ _ hplan)
  | archive => exact .inl rfl
  | restart => exact .inl rfl

/-- A channel that reads back, its messages numbered. -/
structure Sequenced (ch : Channel) : Prop where
  legible : Legible ch
  numbered : Numbered ch.acked

/-- A call does not follow a torn line, and the numbers do not run out. -/
def Safe (ch : Channel) (e : Env × Op) : Prop := TailSafe ch e ∧ ch.state.nextSeq < 2 ^ 63 - 1

/-- What a channel has become holds what it held, and what was posted since has higher numbers. -/
structure Later (ch ch' : Channel) : Prop where
  fixed : ∃ new, fixedOf ch'.acked = fixedOf ch.acked ++ new ∧
    ∀ m ∈ new, ch.state.nextSeq ≤ m.seq
  nextSeq : ch.state.nextSeq ≤ ch'.state.nextSeq

/-- A call on a log without a torn line, while there are numbers left. -/
def Clean (ch : Channel) : Prop := EndsClean ch.file.bytes ∧ ch.state.nextSeq < 2 ^ 63 - 1

instance (ch : Channel) : Decidable (Clean ch) := inferInstanceAs (Decidable (_ ∧ _))

theorem Clean.safe (h : Clean ch) (e : Env × Op) : Safe ch e := ⟨fun _ _ _ _ _ _ => h.1, h.2⟩

/-- The channel after calls, each of them on a clean log. -/
def execClean : List (Env × Op) → Channel → Option Channel :=
  Run.exec (fun ch e => some (exec ch e.1 e.2)) fun ch _ => Clean ch

theorem run_of_execClean (es : List (Env × Op)) {ch' : Channel} (h : execClean es ch = some ch') :
    Run Step Safe ch es ch' := by
  have hrun := Run.of_exec es h
  clear h
  induction hrun with
  | nil => exact .nil
  | snoc _ hclean hstep ih => exact .snoc ih (hclean.safe _) (Option.some.inj hstep)

theorem sequenced_newChannel (name : String) : Sequenced (newChannel name) :=
  ⟨(synced_newChannel name).legible, Numbered.nil⟩

namespace Sequenced

theorem nextSeq (h : Sequenced ch) : ch.state.nextSeq = ((creations ch.acked).length : Int) + 1 := by
  rw [h.legible.state_eq, h.numbered.nextSeq]

theorem seq_eq (h : Sequenced ch) {i : Nat} {m : Message} (hm : (fixedOf ch.acked)[i]? = some m) :
    m.seq = (i : Int) + 1 := by
  obtain ⟨m', hm', rfl⟩ : ∃ m', (replayMessages ch.acked).msgs[i]? = some m' ∧ m'.fixed = m := by
    unfold fixedOf at hm
    rw [List.getElem?_map] at hm
    exact Option.map_eq_some_iff.mp hm
  show m'.seq = _
  exact h.numbered.msg hm'

theorem length_fixed (h : Sequenced ch) :
    ((fixedOf ch.acked).length : Int) + 1 = ch.state.nextSeq := by
  have hsent := congrArg List.length (replayMessages_sent ch.acked)
  rw [List.length_map, List.length_map] at hsent
  rw [h.nextSeq, fixedOf, List.length_map, hsent]

/-- The messages stand in the order of their numbers, all of them below the next one. -/
theorem sorted (h : Sequenced ch) : (fixedOf ch.acked).Pairwise fun a b => a.seq < b.seq := by
  refine List.pairwise_iff_getElem.mpr fun i j hi hj hlt => ?_
  rw [h.seq_eq (List.getElem?_eq_getElem hi), h.seq_eq (List.getElem?_eq_getElem hj)]
  omega

theorem bounds (h : Sequenced ch) {m : Message} (hm : m ∈ fixedOf ch.acked) :
    0 < m.seq ∧ m.seq < ch.state.nextSeq := by
  obtain ⟨i, hi⟩ := List.mem_iff_getElem?.mp hm
  have hlt := (List.getElem?_eq_some_iff.mp hi).1
  have hlen := h.length_fixed
  rw [h.seq_eq hi]
  omega

theorem later_of_acked {ch' : Channel} (h : Sequenced ch) (h' : Sequenced ch')
    (hacked : ch'.acked = ch.acked ∨ ∃ rec, ch'.acked = ch.acked ++ [rec]) : Later ch ch' := by
  rcases hacked with hsame | ⟨rec, hsnoc⟩
  · refine ⟨⟨[], by rw [hsame, List.append_nil], fun _ hm => (nomatch hm)⟩, ?_⟩
    rw [h.nextSeq, h'.nextSeq, hsame]
  · have hfixed : fixedOf ch'.acked = fixedOf ch.acked ++ if rec.op = opCreate then [rec.fixed] else [] := by
      rw [hsnoc, fixedOf_snoc]
    refine ⟨⟨_, hfixed, fun m hm => ?_⟩, ?_⟩
    · -- the new message stands behind all others
      split at hm
      · next hop =>
        rw [if_pos hop] at hfixed
        rw [List.mem_singleton.mp hm, ← h.length_fixed,
          h'.seq_eq (i := (fixedOf ch.acked).length) (by rw [hfixed, List.getElem?_concat_length])]
      · cases hm
    · rw [← h.length_fixed, ← h'.length_fixed, hfixed, List.length_append]
      omega

theorem exec (h : Sequenced ch) {e : Env × Op} (hsafe : Safe ch e) :
    Sequenced (Chat.exec ch e.1 e.2) ∧ Later ch (Chat.exec ch e.1 e.2) := by
  have hnext : Sequenced (Chat.exec ch e.1 e.2) :=
    ⟨h.legible.exec hsafe.1, (h.legible.goesOn h.numbered hsafe.2 e.1 e.2).numbered⟩
  refine ⟨hnext, h.later_of_acked hnext ?_⟩
  rcases h.legible.appended e.1 e.2 with hsame | ⟨rec, hsnoc, -⟩
  · exact .inl hsame
  · exact .inr ⟨rec, hsnoc⟩

/-- A read leaves everything as it was, and reads the messages of the log. -/
theorem read {α : Type} (h : Sequenced ch) (env : Env) (get : ChannelState → α) :
    Sequenced (ch.read env get).1 ∧ (ch.read env get).1.acked = ch.acked ∧
      ∀ a, (ch.read env get).2 = .ok a → a = get (replayMessages ch.acked) := by
  obtain ⟨hlegible, hacked, hok⟩ := h.legible.channelState env
  unfold Channel.read
  cases hst : ch.channelState env with
  | mk ch₁ result =>
    rw [hst] at hlegible hacked hok
    have hread : Sequenced ch₁ := ⟨hlegible, hacked ▸ h.numbered⟩
    cases result with
    | error e => exact ⟨hread, hacked, fun _ ha => (nomatch ha)⟩
    | ok cs =>
      refine ⟨hread, hacked, fun a ha => ?_⟩
      cases ha
      rw [(hok cs rfl).1]

end Sequenced

theorem Later.trans {ch' ch'' : Channel} (h : Later ch ch') (h' : Later ch' ch'') :
    Later ch ch'' := by
  obtain ⟨new, hnew, hge⟩ := h.fixed
  obtain ⟨new', hnew', hge'⟩ := h'.fixed
  refine ⟨⟨new ++ new', by rw [hnew', hnew, List.append_assoc], fun m hm => ?_⟩,
    Int.le_trans h.nextSeq h'.nextSeq⟩
  rcases List.mem_append.mp hm with hm | hm
  · exact hge m hm
  · exact Int.le_trans h.nextSeq (hge' m hm)

/-! ## Page by page -/

/-- A reader: the number its first page came below, the number of the oldest message it has, its
messages, and whether a page was empty. -/
structure Reader where
  bound : Int
  cursor : Int
  got : List Message
  ended : Bool

structure TimelineWorld where
  channel : Channel
  reader : Option Reader := none

inductive TimelineEvent where
  | call (env : Env) (op : Op)
  /-- The reader asks for a page. -/
  | page (env : Env) (limit : Int)

/-- What a reader does with a page. -/
def Reader.take (r : Reader) (page : List Message) : Reader :=
  { r with
    cursor := (page.head?.map (·.seq)).getD r.cursor
    got := page ++ r.got
    ended := page.isEmpty }

namespace TimelineWorld

/-- The reader, or one who is about to begin. -/
def asking (w : TimelineWorld) : Reader :=
  w.reader.getD
    { bound := w.channel.state.nextSeq, cursor := w.channel.state.nextSeq, got := [], ended := false }

/-- The number a page is to come before; the first page is asked for without one. -/
def before (w : TimelineWorld) : Int := (w.reader.map (·.cursor)).getD 0

def step (w : TimelineWorld) : TimelineEvent → Option TimelineWorld
  | .call env op => some { w with channel := exec w.channel env op }
  | .page env limit =>
    if w.asking.ended then none
    else
      match w.channel.read env fun cs => cs.listMessages w.before limit with
      | (channel, .error _) => some { w with channel }
      | (channel, .ok page) => some { channel, reader := some (w.asking.take page) }

def Admits (w : TimelineWorld) : TimelineEvent → Prop
  | .call env op => Safe w.channel (env, op)
  | .page _ _ => True

end TimelineWorld

/-- A reader has what there is of the timeline from its cursor on. -/
structure Reads (ch : Channel) (r : Reader) : Prop where
  pos : 0 < r.cursor
  order : r.cursor ≤ r.bound
  bound : r.bound ≤ ch.state.nextSeq
  got : r.got.map Message.fixed =
    Pages.range (·.seq) r.cursor r.bound (topLevel (fixedOf ch.acked))
  ended : r.ended = true → ∀ m ∈ topLevel (fixedOf ch.acked), r.cursor ≤ m.seq

theorem Reads.later {ch' : Channel} {r : Reader} (h : Reads ch r) (hlater : Later ch ch') :
    Reads ch' r := by
  obtain ⟨new, hnew, hge⟩ := hlater.fixed
  have htop : topLevel (fixedOf ch'.acked) = topLevel (fixedOf ch.acked) ++ topLevel new := by
    rw [hnew, topLevel, List.filter_append]
    rfl
  have hbeyond : ∀ m ∈ topLevel new, r.bound ≤ m.seq := fun m hm =>
    Int.le_trans h.bound (hge m (List.mem_of_mem_filter hm))
  refine ⟨h.pos, h.order, Int.le_trans h.bound hlater.nextSeq, ?_, fun hended m hm => ?_⟩
  · rw [htop, Pages.range_append hbeyond]
    exact h.got
  · rw [htop] at hm
    rcases List.mem_append.mp hm with hm | hm
    · exact h.ended hended m hm
    · exact Int.le_trans h.order (hbeyond m hm)

/-- Before the first page a reader has nothing, which is all there is from the next number on. -/
theorem Sequenced.reads_nothing (h : Sequenced ch) :
    Reads ch { bound := ch.state.nextSeq, cursor := ch.state.nextSeq, got := [], ended := false } where
  pos := by
    have hnext := h.nextSeq
    dsimp only
    omega
  order := Int.le_refl _
  bound := Int.le_refl _
  got := by
    refine (List.filter_eq_nil_iff.mpr fun m _ => ?_).symm
    rw [Bool.and_eq_true, decide_eq_true_iff, decide_eq_true_iff]
    dsimp only
    omega
  ended hended := nomatch hended

/-- A page goes before what a reader has. -/
theorem Sequenced.reads_page (h : Sequenced ch) {r : Reader} (hr : Reads ch r) {n : Nat}
    (hn : 0 < n) {page : List Message}
    (hpage : page = Pages.page (·.seq) n r.cursor (topLevel (replayMessages ch.acked).msgs)) :
    Reads ch (r.take page) := by
  have hsorted : (topLevel (fixedOf ch.acked)).Pairwise fun a b => a.seq < b.seq := h.sorted.filter _
  have hfixed : page.map Message.fixed =
      Pages.page (·.seq) n r.cursor (topLevel (fixedOf ch.acked)) := by
    have hkey : ∀ m : Message, m.fixed.seq = m.seq := fun _ => rfl
    rw [hpage, fixedOf, topLevel_fixed]
    exact Pages.page_map hkey
  cases hcase : page with
  | nil =>
    rw [hcase, List.map_nil] at hfixed
    refine ⟨hr.pos, hr.order, hr.bound, hr.got, fun _ m hm => ?_⟩
    by_contra hlow
    have hin : m ∈ Pages.range (·.seq) m.seq r.cursor (topLevel (fixedOf ch.acked)) :=
      Pages.mem_range.mpr ⟨hm, Int.le_refl _, Int.not_le.mp hlow⟩
    rw [Pages.range_of_page_nil hn hfixed.symm] at hin
    cases hin
  | cons m rest =>
    rw [hcase, List.map_cons] at hfixed
    have hrange := Pages.range_page hsorted hfixed.symm
    have hm : m.fixed ∈ Pages.range (·.seq) m.seq r.cursor (topLevel (fixedOf ch.acked)) := by
      rw [show m.seq = m.fixed.seq from rfl, hrange]
      exact List.mem_cons_self
    obtain ⟨hmem, -, hlt⟩ := Pages.mem_range.mp hm
    have hlt : m.seq < r.cursor := hlt
    refine ⟨(h.bounds (List.mem_of_mem_filter hmem)).1, ?_, hr.bound, ?_, fun hended => nomatch hended⟩
    · exact Int.le_trans (Int.le_of_lt hlt) hr.order
    · show (m :: rest ++ r.got).map Message.fixed = Pages.range (·.seq) m.seq r.bound _
      rw [Pages.range_split hsorted (Int.le_of_lt hlt) hr.order, List.map_append, hr.got]
      exact congrArg (· ++ _) hrange.symm

/-- Nothing but the file system keeps a channel from being read. -/
theorem Legible.loads (h : Legible ch) {env : Env} (hload : env.load = none) :
    ∃ ch₁, ch.channelState env = (ch₁, .ok (replayMessages ch.acked)) := by
  unfold Channel.channelState
  cases hloaded : ch.loaded with
  | some cs => exact ⟨ch, by rw [(h.loaded cs hloaded).loaded cs hloaded]⟩
  | none =>
    obtain ⟨bs, tail, hbytes, hlines, htail⟩ := h.log
    have hok := (replayLog_stops hbytes hlines htail none).2.1 rfl
    rw [hload]
    cases hreplay : replayLog ch.file none with
    | mk f result =>
      rw [hreplay] at hok
      obtain rfl : result = .ok ch.acked := hok
      exact ⟨_, rfl⟩

namespace TimelineWorld

variable {w w' : TimelineWorld}

/-- The channel reads back, and the reader has what there is. -/
structure Inv (w : TimelineWorld) : Prop where
  channel : Sequenced w.channel
  reader : ∀ r, w.reader = some r → Reads w.channel r

theorem Inv.asking (h : Inv w) : Reads w.channel w.asking := by
  unfold TimelineWorld.asking
  cases hr : w.reader with
  | none => exact h.channel.reads_nothing
  | some r => exact h.reader r hr

/-- A page that is read is the one before what the reader has. -/
theorem Inv.page (h : Inv w) (limit : Int) :
    (replayMessages w.channel.acked).listMessages w.before limit =
      Pages.page (·.seq) (pageLimit limit) w.asking.cursor
        (topLevel (replayMessages w.channel.acked).msgs) := by
  refine listMessages_eq _ limit ?_
  unfold before TimelineWorld.asking
  cases hr : w.reader with
  | some r => exact .inl ⟨(h.reader r hr).pos, rfl⟩
  | none =>
    refine .inr ⟨rfl, fun m hm => ?_⟩
    exact (h.channel.bounds (List.mem_map_of_mem hm : m.fixed ∈ fixedOf w.channel.acked)).2

theorem inv_step {e : TimelineEvent} (h : Inv w) (hadmits : w.Admits e)
    (hstep : w.step e = some w') : Inv w' := by
  cases e with
  | call env op =>
    cases hstep
    obtain ⟨hnext, hlater⟩ := h.channel.exec hadmits
    exact ⟨hnext, fun r hr => (h.reader r hr).later hlater⟩
  | page env limit =>
    have hread := h.channel.read env fun cs => cs.listMessages w.before limit
    unfold step at hstep
    dsimp only at hstep
    split at hstep
    · cases hstep
    cases hout : w.channel.read env fun cs => cs.listMessages w.before limit with
    | mk channel result =>
      rw [hout] at hstep hread
      obtain ⟨hnext, hacked, hok⟩ := hread
      have hsame : Later w.channel channel := h.channel.later_of_acked hnext (.inl hacked)
      cases result with
      | error e =>
        cases hstep
        exact ⟨hnext, fun r hr => (h.reader r hr).later hsame⟩
      | ok page =>
        cases hstep
        refine ⟨hnext, fun r hr => ?_⟩
        cases hr
        have hpage := hok page rfl
        rw [h.page] at hpage
        exact (h.channel.reads_page h.asking (pageLimit_pos limit) hpage).later hsame

/-- A reader gets a page, as long as the channel can be read. -/
theorem Inv.goes_on (h : Inv w) (hended : w.asking.ended = false) {env : Env}
    (hload : env.load = none) (limit : Int) :
    ∃ w' page, w.step (.page env limit) = some w' ∧ w'.reader = some (w.asking.take page) := by
  obtain ⟨ch₁, hst⟩ := h.channel.legible.loads hload
  refine ⟨⟨ch₁, _⟩, (replayMessages w.channel.acked).listMessages w.before limit, ?_, rfl⟩
  unfold step
  dsimp only
  rw [hended, if_neg Bool.false_ne_true, Channel.read, hst]

end TimelineWorld

/-- What a reader is promised: all of the timeline between two numbers, each message once and in
order, and when it is done all that was there when it began. -/
structure Paged (w : TimelineWorld) (r : Reader) : Prop where
  got : r.got.map Message.fixed =
    Pages.range (·.seq) r.cursor r.bound (topLevel (fixedOf w.channel.acked))
  order : r.got.Pairwise fun a b => a.seq < b.seq
  whole : r.ended = true → r.got.map Message.fixed =
    (topLevel (fixedOf w.channel.acked)).filter fun m => m.seq < r.bound
  /-- Each further page is one step on. -/
  goes_on : r.ended = false → ∀ env limit, env.load = none →
    ∃ w' r', w.step (.page env limit) = some w' ∧ w'.reader = some r' ∧ r'.bound = r.bound ∧
      (r'.ended = true ∨ r.got.length < r'.got.length)

namespace TimelineWorld

/-- The calls are on a clean log. -/
def Cleanly (w : TimelineWorld) : TimelineEvent → Prop
  | .call _ _ => Clean w.channel
  | .page _ _ => True

instance (w : TimelineWorld) : ∀ e, Decidable (w.Cleanly e)
  | .call _ _ => inferInstanceAs (Decidable (Clean _))
  | .page _ _ => inferInstanceAs (Decidable True)

theorem admits_of_cleanly (w : TimelineWorld) {e : TimelineEvent} (h : w.Cleanly e) : w.Admits e := by
  cases e with
  | call env op => exact Clean.safe h _
  | page env limit => trivial

end TimelineWorld

/-- Three messages, pages of two, and a message that is posted and one that is deleted in
between. -/
def pagedRun : List TimelineEvent :=
  [.call (callEnv .full) (.create "u1" "Ada" "m1" "one" 0),
   .call (callEnv .full) (.create "u2" "Bob" "m2" "two" 0),
   .call (callEnv .full) (.create "u1" "Ada" "m3" "three" 0),
   .page (callEnv .full) 2,
   .call (callEnv .full) (.create "u2" "Bob" "m4" "four" 0),
   .call (callEnv .full) (.delete 1),
   .page (callEnv .full) 2,
   .page (callEnv .full) 2]

/-- What `afterSeq` asks for is whole, up to the number the answer gives. -/
def Whole (ch : Channel) (afterSeq latestSeq : Int) (messages : List Message) : Prop :=
  ∀ m ∈ fixedOf ch.acked, afterSeq < m.seq → m.seq ≤ latestSeq → m ∈ messages.map Message.fixed

theorem Sequenced.run (h : Sequenced ch) {es : List (Env × Op)} {ch' : Channel}
    (hrun : Run Step Safe ch es ch') : Sequenced ch' ∧ Later ch ch' := by
  induction hrun with
  | nil => exact ⟨h, h.later_of_acked h (.inl rfl)⟩
  | snoc _ hsafe hstep ih =>
    obtain ⟨hmid, hlater⟩ := ih
    cases hstep
    obtain ⟨hnext, hlater'⟩ := hmid.exec hsafe
    exact ⟨hnext, hlater.trans hlater'⟩

/-- A channel with one message. -/
def greeted : Channel := exec (newChannel "general") (callEnv .full) (.create "u1" "Ada" "m1" "one" 0)

/-- The channel after the first read of a poll, and what that read gives. -/
def polled : Channel × Except Err (List Message) :=
  greeted.read (callEnv .full) (·.listMessagesAfter 0)

/-- A message is posted before the second read. -/
def overtaken : Channel := exec polled.1 (callEnv .full) (.create "u2" "Bob" "m2" "two" 0)

end FusionLocalServer.Chat
