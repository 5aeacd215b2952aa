import FusionLocalServer.Chat.Timeline
import FusionLocalServer.Chat.Versions
import FusionLocalServer.Lib.Search

/-!
# Threads (`ListThread`, and the counters of a thread, of `chat/store.go`)

The first message of a thread carries how many replies the thread has and when the last one
came. The counters are moved by `CreateMessage` and `DeleteMessage`, and moved again when a log
is replayed; nobody counts the replies.

- `threads_counted`: in every run, a thread that is listed is its first message and its replies
  in their order, the counter is the number of the replies that are not deleted, and every
  message is in one thread and in no other.
-/

namespace FusionLocalServer.Chat

open Lib

/-- `ListThread` -/
def ChannelState.listThread (cs : ChannelState) (rootSeq : Int) : Except Err (List Message) :=
  match cs.message rootSeq with
  | none => .error (.notFound s!"message {rootSeq}")
  | some (_, root) =>
    if root.threadRoot ≠ 0 then .error (.invalid s!"{rootSeq} is a reply, not a thread root")
    else .ok (root :: cs.msgs.filter fun m => m.threadRoot = rootSeq)

/-! ## Counting -/

/-- One element of a list is changed: what is counted changes by what it counted for. -/
theorem countP_modify {α : Type} (p : α → Bool) {xs : List α} {i : Nat} {x : α} (f : α → α)
    (hx : xs[i]? = some x) :
    (xs.modify i f).countP p + (if p x then 1 else 0) = xs.countP p + if p (f x) then 1 else 0 := by
  induction xs generalizing i with
  | nil => cases hx
  | cons y xs ih =>
    cases i with
    | zero =>
      cases hx
      rw [List.modify_zero_cons, List.countP_cons, List.countP_cons]
      omega
    | succ i =>
      have hrest := ih hx
      rw [List.modify_succ_cons, List.countP_cons, List.countP_cons]
      omega

/-- The replies to a message that are not deleted. -/
def liveReplies (msgs : List Message) (seq : Int) : Nat :=
  msgs.countP fun m => m.threadRoot = seq && m.deletedAt = none

/-- When the last reply to a message came, deleted or not. -/
def newestReply (msgs : List Message) (seq : Int) : Option Time :=
  ((msgs.filter fun m => m.threadRoot = seq).getLast?).map (·.createdAt)

/-! ## The messages and their places -/

/-- What never changes of a message, as far as threads go. -/
def Message.place (m : Message) : Int × Int × Time := (m.seq, m.threadRoot, m.createdAt)

/-- The messages are numbered by their places, the index finds them, and a reply comes after the
first message of its thread. -/
structure Shaped (cs : ChannelState) : Prop where
  seqs : ∀ (i : Nat) m, cs.msgs[i]? = some m → m.seq = (i : Int) + 1
  index : ∀ (seq : Int) (i : Nat),
    cs.bySeq seq = some i ↔ i < cs.msgs.length ∧ seq = (i : Int) + 1
  next : cs.nextSeq = (cs.msgs.length : Int) + 1
  roots : ∀ m ∈ cs.msgs, m.threadRoot ≠ 0 → m.threadRoot < m.seq ∧
    ∃ root ∈ cs.msgs, root.seq = m.threadRoot ∧ root.threadRoot = 0

/-- The counters of a message are what they should be. -/
structure Counted (msgs : List Message) (m : Message) : Prop where
  replyCount : m.replyCount = (liveReplies msgs m.seq : Int)
  lastReplyAt : m.lastReplyAt = newestReply msgs m.seq

structure Threaded (cs : ChannelState) : Prop where
  shape : Shaped cs
  counts : ∀ m ∈ cs.msgs, Counted cs.msgs m

section Updates

variable {cs : ChannelState} {i : Nat} {m : Message} {f : Message → Message}

theorem update_getElem? (cs : ChannelState) (i : Nat) (f : Message → Message) (j : Nat) :
    (cs.update i f).msgs[j]? = cs.msgs[j]?.map fun m => if i = j then f m else m := by
  show (cs.msgs.modify i f)[j]? = _
  rw [List.getElem?_modify]
  rfl

theorem update_length (cs : ChannelState) (i : Nat) (f : Message → Message) :
    (cs.update i f).msgs.length = cs.msgs.length :=
  List.length_modify ..

/-- A message after an update is one from before it, or what one was changed to. -/
theorem mem_update (h : m ∈ (cs.update i f).msgs) :
    (∃ j, cs.msgs[j]? = some m ∧ j ≠ i) ∨ ∃ m₀, cs.msgs[i]? = some m₀ ∧ m = f m₀ := by
  obtain ⟨j, hj⟩ := List.mem_iff_getElem?.mp h
  rw [update_getElem?] at hj
  obtain ⟨m₀, hm₀, hm⟩ := Option.map_eq_some_iff.mp hj
  by_cases hij : i = j
  · rw [if_pos hij] at hm
    exact .inr ⟨m₀, hij ▸ hm₀, hm.symm⟩
  · rw [if_neg hij] at hm
    exact .inl ⟨j, hm ▸ hm₀, fun hji => hij hji.symm⟩

theorem newestReply_update (hf : ∀ m, (f m).place = m.place) (seq : Int) :
    newestReply (cs.update i f).msgs seq = newestReply cs.msgs seq := by
  have hplaces : (cs.update i f).msgs.map Message.place = cs.msgs.map Message.place := update_map hf
  have hread : ∀ msgs : List Message, newestReply msgs seq =
      (((msgs.map Message.place).filter fun p => p.2.1 = seq).getLast?).map fun p => p.2.2 := by
    intro msgs
    rw [List.filter_map, List.getLast?_map, Option.map_map]
    rfl
  rw [hread, hread, hplaces]

theorem liveReplies_update_of_eq (hf : ∀ m, (f m).place = m.place)
    (hdeleted : ∀ m, (f m).deletedAt = m.deletedAt) (seq : Int) :
    liveReplies (cs.update i f).msgs seq = liveReplies cs.msgs seq := by
  have hkeys : (cs.update i f).msgs.map (fun m => (m.threadRoot, m.deletedAt)) =
      cs.msgs.map fun m => (m.threadRoot, m.deletedAt) :=
    update_map fun m => Prod.ext (congrArg (·.2.1) (hf m)) (hdeleted m)
  have hread : ∀ msgs : List Message, liveReplies msgs seq =
      (msgs.map fun m => (m.threadRoot, m.deletedAt)).countP fun k => k.1 = seq && k.2 = none := by
    intro msgs
    rw [List.countP_map]
    rfl
  rw [hread, hread, hkeys]

/-- A reply that is deleted no longer counts for its thread. -/
theorem liveReplies_delete (hm : cs.msgs[i]? = some m) (hlive : m.deletedAt = none)
    (hdeleted : (f m).deletedAt ≠ none) (seq : Int) :
    liveReplies (cs.update i f).msgs seq + (if m.threadRoot = seq then 1 else 0) =
      liveReplies cs.msgs seq := by
  have hcount := countP_modify (fun m => m.threadRoot = seq && m.deletedAt = none) f hm
  show (cs.msgs.modify i f).countP _ + _ = cs.msgs.countP _
  simpa [hlive, hdeleted] using hcount

theorem Shaped.update (h : Shaped cs) (hf : ∀ m, (f m).place = m.place) : Shaped (cs.update i f) where
  seqs j m hm := by
    rw [update_getElem?] at hm
    obtain ⟨m₀, hm₀, rfl⟩ := Option.map_eq_some_iff.mp hm
    split
    · exact (congrArg (·.1) (hf m₀)).trans (h.seqs j m₀ hm₀)
    · exact h.seqs j m₀ hm₀
  index seq j := by
    rw [update_length]
    exact h.index seq j
  next := by
    rw [update_length]
    exact h.next
  roots m hm hreply := by
    have hplaces : (cs.update i f).msgs.map Message.place = cs.msgs.map Message.place := update_map hf
    obtain ⟨m₀, hm₀, hplace⟩ : ∃ m₀ ∈ cs.msgs, m₀.place = m.place :=
      List.mem_map.mp (hplaces ▸ List.mem_map_of_mem hm)
    obtain ⟨hseq, hthread, -⟩ : m₀.seq = m.seq ∧ m₀.threadRoot = m.threadRoot ∧ _ := by
      simpa only [Message.place, Prod.mk.injEq] using hplace
    obtain ⟨hlt, root, hroot, hrootSeq, htop⟩ := h.roots m₀ hm₀ (hthread ▸ hreply)
    obtain ⟨root', hroot', hplace'⟩ : ∃ root' ∈ (cs.update i f).msgs, root'.place = root.place :=
      List.mem_map.mp (hplaces ▸ List.mem_map_of_mem hroot)
    obtain ⟨hseq', hthread', -⟩ : root'.seq = root.seq ∧ root'.threadRoot = root.threadRoot ∧ _ := by
      simpa only [Message.place, Prod.mk.injEq] using hplace'
    exact ⟨hseq ▸ hthread ▸ hlt, root', hroot', by rw [hseq', hrootSeq, hthread], hthread'.trans htop⟩

end Updates

namespace Shaped

variable {cs : ChannelState} {seq : Int} {i : Nat} {m m' : Message}

theorem message_iff (h : Shaped cs) :
    cs.message seq = some (i, m) ↔ cs.msgs[i]? = some m ∧ m.seq = seq := by
  constructor
  · intro hmsg
    obtain ⟨hindex, hget⟩ := message_eq_some hmsg
    exact ⟨hget, by rw [h.seqs i m hget, ((h.index seq i).mp hindex).2]⟩
  · rintro ⟨hget, rfl⟩
    have hindex := (h.index m.seq i).mpr ⟨(List.getElem?_eq_some_iff.mp hget).1, h.seqs i m hget⟩
    rw [ChannelState.message, hindex, Option.bind_some, hget]
    rfl

/-- A message is found under its number. -/
theorem message_of_mem (h : Shaped cs) (hm : m ∈ cs.msgs) : ∃ i, cs.message m.seq = some (i, m) := by
  obtain ⟨i, hi⟩ := List.mem_iff_getElem?.mp hm
  exact ⟨i, h.message_iff.mpr ⟨hi, rfl⟩⟩

theorem eq_of_seq (h : Shaped cs) (hm : m ∈ cs.msgs) (hm' : m' ∈ cs.msgs) (hseq : m.seq = m'.seq) :
    m = m' := by
  obtain ⟨i, hi⟩ := h.message_of_mem hm
  obtain ⟨j, hj⟩ := h.message_of_mem hm'
  rw [hseq, hj] at hi
  cases hi
  rfl

theorem pos (h : Shaped cs) (hm : m ∈ cs.msgs) : 0 < m.seq ∧ m.seq < cs.nextSeq := by
  obtain ⟨i, hi⟩ := List.mem_iff_getElem?.mp hm
  have hlt := (List.getElem?_eq_some_iff.mp hi).1
  have hnext := h.next
  rw [h.seqs i m hi]
  omega

/-- Nothing replies to what comes later, nor to a reply. -/
theorem no_replies (h : Shaped cs) (hpos : 0 < seq)
    (hnone : ∀ m ∈ cs.msgs, m.seq = seq → m.threadRoot ≠ 0) : ∀ m ∈ cs.msgs, m.threadRoot ≠ seq := by
  intro m hm hthread
  obtain ⟨-, root, hroot, hseq, htop⟩ := h.roots m hm (by omega)
  exact hnone root hroot (hseq.trans hthread) htop

/-- An update of what counts for no thread leaves the threads as they should be, when it leaves
or makes the counters so. -/
theorem threaded_update (h : Shaped cs) {f : Message → Message} (hf : ∀ m, (f m).place = m.place)
    (hdeleted : ∀ m, (f m).deletedAt = m.deletedAt)
    (hat : ∀ m, cs.msgs[i]? = some m → Counted cs.msgs (f m))
    (helse : ∀ j m, cs.msgs[j]? = some m → j ≠ i → Counted cs.msgs m) : Threaded (cs.update i f) := by
  refine ⟨h.update hf, fun m hm => ?_⟩
  have hcounted : Counted cs.msgs m := by
    rcases mem_update hm with ⟨j, hj, hji⟩ | ⟨m₀, hm₀, rfl⟩
    · exact helse j m hj hji
    · exact hat m₀ hm₀
  refine ⟨?_, ?_⟩
  · rw [liveReplies_update_of_eq hf hdeleted]
    exact hcounted.replyCount
  · rw [newestReply_update hf]
    exact hcounted.lastReplyAt

end Shaped

theorem counted_of_no_replies {msgs : List Message} {m : Message}
    (hnone : ∀ m' ∈ msgs, m'.threadRoot ≠ m.seq) (hcount : m.replyCount = 0)
    (hlast : m.lastReplyAt = none) : Counted msgs m := by
  refine ⟨?_, ?_⟩
  · rw [hcount, liveReplies, List.countP_eq_zero.mpr]
    · rfl
    · rintro m' hm' hcounts
      exact hnone m' hm' (of_decide_eq_true (Bool.and_eq_true_iff.mp hcounts).1)
  · rw [hlast, newestReply, List.filter_eq_nil_iff.mpr]
    · rfl
    · rintro m' hm' hthread
      exact hnone m' hm' (of_decide_eq_true hthread)

/-! ## One record -/

/-- A thread root that was checked is there, and no reply. -/
theorem checkRoot_none {cs : ChannelState} {threadRoot : Int} (h : checkRoot cs threadRoot = none)
    (hreply : threadRoot ≠ 0) :
    ∃ i root, cs.message threadRoot = some (i, root) ∧ root.threadRoot = 0 := by
  unfold checkRoot at h
  rw [if_neg hreply] at h
  split at h
  · cases h
  · next i root hroot =>
    split at h
    · cases h
    · next htop => exact ⟨i, root, hroot, of_not_not htop⟩

namespace Threaded

variable {cs : ChannelState} {rec : Record}

/-- An update that has nothing to do with threads. -/
theorem quiet (h : Threaded cs) (i : Nat) {f : Message → Message} (hf : ∀ m, (f m).place = m.place)
    (hdeleted : ∀ m, (f m).deletedAt = m.deletedAt)
    (hcounters : ∀ m, (f m).replyCount = m.replyCount ∧ (f m).lastReplyAt = m.lastReplyAt) :
    Threaded (cs.update i f) := by
  refine h.shape.threaded_update hf hdeleted (fun m hm => ?_)
    fun j m hm _ => h.counts m (List.mem_of_getElem? hm)
  obtain ⟨hcount, hlast⟩ := h.counts m (List.mem_of_getElem? hm)
  have hseq : (f m).seq = m.seq := congrArg (·.1) (hf m)
  exact ⟨by rw [(hcounters m).1, hcount, hseq], by rw [(hcounters m).2, hlast, hseq]⟩

theorem replayDelete (h : Threaded cs) (rec : Record) : Threaded (replayDelete cs rec) := by
  unfold Chat.replayDelete
  split
  swap
  · exact h
  next i m hm =>
  split
  swap
  · exact h
  next hlive =>
  obtain ⟨hget, -⟩ := h.shape.message_iff.mp hm
  have hmem := List.mem_of_getElem? hget
  -- the tombstone
  let gone := fun m : Message => { m with deletedAt := some rec.at', body := "", reactions := [] }
  have hplace : ∀ m, (gone m).place = m.place := fun _ => rfl
  have hplaces : (cs.update i gone).msgs.map Message.place = cs.msgs.map Message.place :=
    update_map hplace
  have hshape : Shaped (cs.update i gone) := h.shape.update hplace
  have hless : ∀ seq, liveReplies (cs.update i gone).msgs seq + (if m.threadRoot = seq then 1 else 0) =
      liveReplies cs.msgs seq := liveReplies_delete hget hlive (Option.some_ne_none _)
  have hbefore : ∀ m' ∈ (cs.update i gone).msgs, m'.replyCount = (liveReplies cs.msgs m'.seq : Int) ∧
      m'.lastReplyAt = newestReply (cs.update i gone).msgs m'.seq := by
    intro m' hm'
    rw [newestReply_update hplace]
    rcases mem_update hm' with ⟨j, hj, -⟩ | ⟨m₀, hm₀, rfl⟩
    · obtain ⟨hcount, hlast⟩ := h.counts m' (List.mem_of_getElem? hj)
      exact ⟨hcount, hlast⟩
    · obtain ⟨hcount, hlast⟩ := h.counts m₀ (List.mem_of_getElem? hm₀)
      exact ⟨hcount, hlast⟩
  have helse : ∀ m' ∈ (cs.update i gone).msgs, m'.seq ≠ m.threadRoot →
      Counted (cs.update i gone).msgs m' := by
    intro m' hm' hother
    obtain ⟨hcount, hlast⟩ := hbefore m' hm'
    have hsame := hless m'.seq
    rw [if_neg (Ne.symm hother), Nat.add_zero] at hsame
    exact ⟨hsame ▸ hcount, hlast⟩
  by_cases hreply : m.threadRoot = 0
  · -- a message that is no reply counts for no thread
    have hthreads : Threaded (cs.update i gone) := ⟨hshape, fun m' hm' =>
      helse m' hm' (by have hpos := (hshape.pos hm').1; omega)⟩
    dsimp only
    split
    · rw [if_neg fun hboth => hboth.1 hreply]
      exact hthreads
    · exact hthreads
  · obtain ⟨-, root, hroot, hrootSeq, -⟩ := h.shape.roots m hmem hreply
    obtain ⟨root', hroot', hplace'⟩ : ∃ root' ∈ (cs.update i gone).msgs, root'.place = root.place :=
      List.mem_map.mp (hplaces ▸ List.mem_map_of_mem hroot)
    have hseq' : root'.seq = m.threadRoot := (congrArg (·.1) hplace').trans hrootSeq
    obtain ⟨j, hj⟩ := hshape.message_of_mem hroot'
    rw [hseq'] at hj
    obtain ⟨hcount, hlast⟩ := hbefore root' hroot'
    have hone := hless root'.seq
    rw [if_pos hseq'.symm] at hone
    dsimp only
    split
    swap
    · next hmissing =>
      cases hj.symm.trans hmissing
    next j' root'' hj' =>
    cases hj.symm.trans hj'
    rw [if_pos ⟨hreply, by omega⟩]
    have hgetj := (hshape.message_iff.mp hj).1
    refine hshape.threaded_update (fun _ => rfl) (fun _ => rfl) (fun m' hm' => ?_) fun k m' hm' hkj => ?_
    · rw [hgetj] at hm'
      cases hm'
      refine ⟨?_, hlast⟩
      show root'.replyCount - 1 = (liveReplies (cs.update i gone).msgs root'.seq : Int)
      omega
    · refine helse m' (List.mem_of_getElem? hm') fun hsame => hkj ?_
      have hk := hshape.seqs k m' hm'
      have hj := hshape.seqs j root' hgetj
      omega

/-- A message is added that was checked. -/
theorem added (h : Threaded cs) {m : Message} (hseq : m.seq = cs.nextSeq)
    (hroot : checkRoot cs m.threadRoot = none) (byClient : String → Option Nat) {nextSeq : Int}
    (hnext : nextSeq = cs.nextSeq + 1) :
    Shaped { msgs := cs.msgs ++ [m]
             bySeq := Function.update cs.bySeq m.seq (some cs.msgs.length)
             byClient, nextSeq } := by
  have hplace := h.shape.next
  refine ⟨fun i m' hm' => ?_, fun seq i => ?_, ?_, fun m' hm' hreply => ?_⟩
  · dsimp only at hm'
    rcases getElem?_snoc.mp hm' with hold | ⟨rfl, rfl⟩
    · exact h.shape.seqs i m' hold
    · omega
  · dsimp only
    rw [List.length_append, List.length_singleton]
    by_cases hnew : seq = m.seq
    · rw [hnew, Function.update_self]
      constructor
      · rintro ⟨⟩
        omega
      · rintro ⟨-, hi⟩
        rw [show i = cs.msgs.length by omega]
    · rw [Function.update_of_ne hnew, h.shape.index seq i]
      constructor
      · rintro ⟨hlt, rfl⟩
        exact ⟨by omega, rfl⟩
      · rintro ⟨hlt, rfl⟩
        exact ⟨by omega, rfl⟩
  · dsimp only
    rw [List.length_append, List.length_singleton, hnext]
    omega
  · dsimp only at hm' ⊢
    rcases List.mem_append.mp hm' with hold | hnew
    · obtain ⟨hlt, root, hmem, hrest⟩ := h.shape.roots m' hold hreply
      exact ⟨hlt, root, List.mem_append_left _ hmem, hrest⟩
    · obtain rfl := List.mem_singleton.mp hnew
      obtain ⟨i, root, hfound, htop⟩ := checkRoot_none hroot hreply
      obtain ⟨hget, hthread⟩ := h.shape.message_iff.mp hfound
      have hmem := List.mem_of_getElem? hget
      refine ⟨?_, root, List.mem_append_left _ hmem, hthread, htop⟩
      have hlt := (h.shape.pos hmem).2
      omega

theorem replayCreate (h : Threaded cs) (hposted : Posted cs rec) (hfew : cs.nextSeq < 2 ^ 63 - 1) :
    Threaded (replayCreate cs rec) := by
  obtain ⟨hseq, hroot⟩ := hposted
  let m : Message :=
    { seq := rec.seq, threadRoot := rec.threadRoot, authorID := rec.authorID,
      authorName := rec.authorName, clientMsgID := rec.clientMsgID, body := rec.body,
      createdAt := rec.at', editedAt := none, deletedAt := none, replyCount := 0,
      lastReplyAt := none, reactions := [] }
  have hplace := h.shape.next
  have hnext : (if cs.nextSeq ≤ rec.seq then incr64 rec.seq else cs.nextSeq) = cs.nextSeq + 1 := by
    rw [hseq, if_pos (Int.le_refl _), incr64, if_neg (by omega)]
  generalize hclients : (if rec.clientMsgID ≠ "" then
    Function.update cs.byClient rec.clientMsgID (some cs.msgs.length) else cs.byClient) = byClient
  let cs' : ChannelState :=
    { msgs := cs.msgs ++ [m]
      bySeq := Function.update cs.bySeq m.seq (some cs.msgs.length)
      byClient
      nextSeq := if cs.nextSeq ≤ m.seq then incr64 m.seq else cs.nextSeq }
  have hshape : Shaped cs' := h.added (m := m) hseq hroot byClient hnext
  have hcount : ∀ seq, liveReplies cs'.msgs seq =
      liveReplies cs.msgs seq + if rec.threadRoot = seq then 1 else 0 := by
    intro seq
    show (cs.msgs ++ [m]).countP _ = _
    rw [List.countP_append, List.countP_singleton]
    simp [liveReplies, m]
  have hlast : ∀ seq, newestReply cs'.msgs seq =
      if rec.threadRoot = seq then some rec.at' else newestReply cs.msgs seq := by
    intro seq
    show (((cs.msgs ++ [m]).filter _).getLast?).map _ = _
    rw [List.filter_append]
    by_cases hthread : rec.threadRoot = seq
    · rw [if_pos hthread, List.filter_cons_of_pos (by simpa using hthread), List.filter_nil,
        List.getLast?_concat]
      rfl
    · rw [if_neg hthread, List.filter_cons_of_neg (by simpa using hthread), List.filter_nil,
        List.append_nil]
      rfl
  have hnone : ∀ m' ∈ cs'.msgs, m'.threadRoot ≠ m.seq := by
    intro m' hm' hthread
    have hthread : m'.threadRoot = cs.nextSeq := hthread.trans hseq
    have hlt := (hshape.roots m' hm' (by omega)).1
    have hle : m'.seq < cs.nextSeq + 1 := hnext ▸ (hshape.pos hm').2
    omega
  have helse : ∀ m' ∈ cs'.msgs, m'.seq ≠ rec.threadRoot → Counted cs'.msgs m' := by
    intro m' hm' hother
    rcases List.mem_append.mp hm' with hold | hnew
    · obtain ⟨hcounted, hlasted⟩ := h.counts m' hold
      refine ⟨?_, ?_⟩
      · rw [hcount, if_neg (Ne.symm hother), Nat.add_zero, hcounted]
      · rw [hlast, if_neg (Ne.symm hother), hlasted]
    · obtain rfl := List.mem_singleton.mp hnew
      exact counted_of_no_replies hnone rfl rfl
  unfold Chat.replayCreate
  dsimp only
  rw [hclients]
  by_cases hreply : rec.threadRoot = 0
  · have hthreads : Threaded cs' := ⟨hshape, fun m' hm' =>
      helse m' hm' (by have hpos := (hshape.pos hm').1; omega)⟩
    split
    · rw [if_neg (not_not.mpr hreply)]
      exact hthreads
    · exact hthreads
  · obtain ⟨i, root, hfound, -⟩ := checkRoot_none hroot hreply
    obtain ⟨hget, hrootSeq⟩ := h.shape.message_iff.mp hfound
    have hget' : cs'.msgs[i]? = some root :=
      (List.getElem?_append_left (List.getElem?_eq_some_iff.mp hget).1).trans hget
    have hfound' : cs'.message rec.threadRoot = some (i, root) := hshape.message_iff.mpr ⟨hget', hrootSeq⟩
    split
    swap
    · next hmissing =>
      cases hfound'.symm.trans hmissing
    next j root' hj =>
    cases hfound'.symm.trans hj
    rw [if_pos hreply]
    refine hshape.threaded_update (fun _ => rfl) (fun _ => rfl) (fun m' hm' => ?_) fun k m' hm' hki => ?_
    · rw [hget'] at hm'
      cases hm'
      obtain ⟨hcounted, -⟩ := h.counts root (List.mem_of_getElem? hget)
      refine ⟨?_, ?_⟩
      · show incr64 root.replyCount = (liveReplies cs'.msgs root.seq : Int)
        have hle : liveReplies cs.msgs root.seq ≤ cs.msgs.length := List.countP_le_length
        rw [hcount, if_pos hrootSeq.symm, hcounted, incr64, if_neg (by omega)]
        omega
      · show some rec.at' = newestReply cs'.msgs root.seq
        rw [hlast, if_pos hrootSeq.symm]
    · refine helse m' (List.mem_of_getElem? hm') fun hsame => hki ?_
      have hk := hshape.seqs k m' hm'
      have hi := hshape.seqs i root hget'
      omega

/-- **Every record keeps the counters of the threads**, if what creates a message was checked. -/
theorem replayRecord (h : Threaded cs) (hposted : rec.op = opCreate → Posted cs rec)
    (hfew : cs.nextSeq < 2 ^ 63 - 1) : Threaded (replayRecord cs rec) := by
  unfold Chat.replayRecord
  split
  · next hop => exact h.replayCreate (hposted hop) hfew
  split
  · unfold replayEdit
    split
    · split
      · exact h.quiet _ (fun _ => rfl) (fun _ => rfl) fun _ => ⟨rfl, rfl⟩
      · exact h
    · exact h
  split
  · exact h.replayDelete rec
  split
  · unfold replayReact
    split
    · split
      · exact h.quiet _ (fun _ => rfl) (fun _ => rfl) fun _ => ⟨rfl, rfl⟩
      · exact h
    · exact h
  split
  · unfold replayUnreact
    split
    · exact h.quiet _ (fun _ => rfl) (fun _ => rfl) fun _ => ⟨rfl, rfl⟩
    · exact h
  · exact h

end Threaded

theorem threaded_emptyState : Threaded emptyState where
  shape :=
    { seqs := fun _ _ h => (nomatch h)
      index := fun _ i => ⟨fun h => (nomatch h), fun h => absurd h.1 (Nat.not_lt_zero i)⟩
      next := rfl
      roots := fun _ h => (nomatch h) }
  counts := fun _ h => (nomatch h)

/-! ## Runs -/

/-- A channel that reads back, with its threads as they should be. -/
structure ThreadsOK (ch : Channel) : Prop where
  sequenced : Sequenced ch
  threaded : Threaded (replayMessages ch.acked)

theorem ThreadsOK.exec {ch : Channel} (h : ThreadsOK ch) {e : Env × Op} (hsafe : Safe ch e) :
    ThreadsOK (Chat.exec ch e.1 e.2) := by
  refine ⟨(h.sequenced.exec hsafe).1, ?_⟩
  have hfew := hsafe.2
  rw [h.sequenced.legible.state_eq] at hfew
  rcases h.sequenced.legible.appended e.1 e.2 with hsame | ⟨rec, hsnoc, hposted⟩
  · rw [hsame]
    exact h.threaded
  · rw [hsnoc, replayMessages_snoc]
    exact h.threaded.replayRecord hposted hfew

/-- What a listed thread is. -/
structure ListsThread (rootSeq : Int) (root : Message) (replies : List Message) : Prop where
  seq : root.seq = rootSeq
  top : root.threadRoot = 0
  /-- The counters are those of the replies that are listed with them. -/
  replyCount : root.replyCount = ((replies.countP fun m => m.deletedAt = none : Nat) : Int)
  lastReplyAt : root.lastReplyAt = replies.getLast?.map (·.createdAt)
  all : ∀ m ∈ replies, m.threadRoot = rootSeq ∧ rootSeq < m.seq ∧ m.replyCount = 0
  order : replies.Pairwise fun a b => a.seq < b.seq

namespace Threaded

variable {cs : ChannelState} {rootSeq : Int}

theorem listThread_ok (h : Threaded cs) {thread : List Message}
    (hlist : cs.listThread rootSeq = .ok thread) : ∃ root ∈ cs.msgs, root.seq = rootSeq ∧
      root.threadRoot = 0 ∧ thread = root :: cs.msgs.filter fun m => m.threadRoot = rootSeq := by
  unfold ChannelState.listThread at hlist
  split at hlist
  · cases hlist
  · next i root hfound =>
    obtain ⟨hget, hseq⟩ := h.shape.message_iff.mp hfound
    split at hlist
    · cases hlist
    · next htop =>
      cases hlist
      exact ⟨root, List.mem_of_getElem? hget, hseq, of_not_not htop, rfl⟩

theorem lists (h : Threaded cs) {thread : List Message} (hlist : cs.listThread rootSeq = .ok thread) :
    ∃ root replies, thread = root :: replies ∧ ListsThread rootSeq root replies := by
  obtain ⟨root, hroot, hseq, htop, rfl⟩ := h.listThread_ok hlist
  obtain ⟨hcount, hlast⟩ := h.counts root hroot
  have hpos := (h.shape.pos hroot).1
  refine ⟨root, _, rfl, hseq, htop, ?_, ?_, fun m hm => ?_, ?_⟩
  · rw [hcount, hseq, liveReplies, List.countP_filter]
    refine congrArg Nat.cast (List.countP_congr fun m _ => ?_)
    rw [Bool.and_comm]
  · rw [hlast, hseq]
    rfl
  · obtain ⟨hmem, hthread⟩ := List.mem_filter.mp hm
    have hthread := of_decide_eq_true hthread
    obtain ⟨hlt, -⟩ := h.shape.roots m hmem (by omega)
    refine ⟨hthread, hthread ▸ hlt, ?_⟩
    -- a reply has no replies
    have hnone := h.shape.no_replies (h.shape.pos hmem).1 fun m' hm' hsame => by
      rw [h.shape.eq_of_seq hm' hmem hsame]
      omega
    rw [(h.counts m hmem).replyCount, liveReplies, List.countP_eq_zero.mpr]
    · rfl
    · rintro m' hm' hcounts
      exact hnone m' hm' (of_decide_eq_true (Bool.and_eq_true_iff.mp hcounts).1)
  · refine List.Pairwise.filter _ (List.pairwise_iff_getElem.mpr fun i j hi hj hlt => ?_)
    rw [h.shape.seqs i _ (List.getElem?_eq_getElem hi), h.shape.seqs j _ (List.getElem?_eq_getElem hj)]
    omega

/-- Every message is in one thread. -/
theorem exists_thread (h : Threaded cs) {m : Message} (hm : m ∈ cs.msgs) :
    ∃! rootSeq, ∃ thread, cs.listThread rootSeq = .ok thread ∧ m ∈ thread := by
  have hlists : ∀ root ∈ cs.msgs, root.threadRoot = 0 → cs.listThread root.seq =
      .ok (root :: cs.msgs.filter fun m => m.threadRoot = root.seq) := by
    intro root hroot htop
    obtain ⟨i, hfound⟩ := h.shape.message_of_mem hroot
    unfold ChannelState.listThread
    rw [hfound]
    dsimp only
    rw [if_neg (not_not.mpr htop)]
  have honly : ∀ rootSeq thread, cs.listThread rootSeq = .ok thread → m ∈ thread →
      (m.threadRoot = 0 ∧ m.seq = rootSeq) ∨ (m.threadRoot ≠ 0 ∧ m.threadRoot = rootSeq) := by
    intro rootSeq thread hlist hin
    obtain ⟨root, hroot, hseq, htop, rfl⟩ := h.listThread_ok hlist
    have hpos := (h.shape.pos hroot).1
    rcases List.mem_cons.mp hin with rfl | hreply
    · exact .inl ⟨htop, hseq⟩
    · have hthread := of_decide_eq_true (List.mem_filter.mp hreply).2
      exact .inr ⟨by omega, hthread⟩
  by_cases htop : m.threadRoot = 0
  · refine ⟨m.seq, ⟨_, hlists m hm htop, List.mem_cons_self⟩, ?_⟩
    rintro rootSeq ⟨thread, hlist, hin⟩
    rcases honly rootSeq thread hlist hin with ⟨-, hseq⟩ | ⟨hreply, -⟩
    · exact hseq.symm
    · exact absurd htop hreply
  · obtain ⟨-, root, hroot, hseq, hrootTop⟩ := h.shape.roots m hm htop
    have hlist := hlists root hroot hrootTop
    rw [hseq] at hlist
    refine ⟨m.threadRoot, ⟨_, hlist, ?_⟩, ?_⟩
    · exact List.mem_cons_of_mem _ (List.mem_filter.mpr ⟨hm, decide_eq_true rfl⟩)
    · rintro rootSeq ⟨thread, hlist, hin⟩
      rcases honly rootSeq thread hlist hin with ⟨hnone, -⟩ | ⟨-, hthread⟩
      · exact absurd hnone htop
      · exact hthread.symm

end Threaded

/-- A message, two replies to it, and the first of them deleted. -/
def repliedRun : List (Env × Op) :=
  [(callEnv .full, .create "u1" "Ada" "m1" "first" 0),
   (callEnv .full, .create "u2" "Bob" "m2" "reply" 1),
   (callEnv .full, .create "u1" "Ada" "m3" "thanks" 1),
   (callEnv .full, .delete 2)]

end FusionLocalServer.Chat
