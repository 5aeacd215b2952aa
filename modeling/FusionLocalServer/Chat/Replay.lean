import FusionLocalServer.Chat.Store

/-!
# The log and the memory of a channel agree

Every record means the same to the mutator that appends it and to the replayer that reads
it back (`Replays`), so along a run the state in memory is the replay of the records
acknowledged so far. The log holds exactly their lines, as long as nothing is appended
behind a torn one (`TailSafe`): the reader stops at a line it cannot decode, and a record
written onto a fragment makes such a line.
-/

namespace FusionLocalServer.Chat

open Lib

/-! ## One record, two interpreters -/

theorem message_eq_some {cs : ChannelState} {seq : Int} {i : Nat} {m : Message}
    (h : cs.message seq = some (i, m)) : cs.bySeq seq = some i ∧ cs.msgs[i]? = some m := by
  obtain ⟨j, hj, hmsg⟩ := Option.bind_eq_some_iff.mp h
  obtain ⟨m', hm', heq⟩ := Option.map_eq_some_iff.mp hmsg
  obtain ⟨rfl, rfl⟩ := Prod.mk.inj heq
  exact ⟨hj, hm'⟩

/-- Writing through a pointer depends on the function only at the message it points to. -/
theorem update_congr {cs : ChannelState} {i : Nat} {m : Message} {f g : Message → Message}
    (hm : cs.msgs[i]? = some m) (hfg : f m = g m) : cs.update i f = cs.update i g := by
  have hmsgs : cs.msgs.modify i f = cs.msgs.modify i g := by
    refine List.ext_getElem? fun j => ?_
    rw [List.getElem?_modify, List.getElem?_modify]
    by_cases hij : i = j
    · subst hij
      simp [hm, hfg]
    · simp [hij]
  rw [ChannelState.update, ChannelState.update, hmsgs]

/-- The sequence numbers in use are 64-bit. -/
structure SeqsOK (cs : ChannelState) : Prop where
  next : InInt64 cs.nextSeq
  used : ∀ seq i, cs.bySeq seq = some i → InInt64 seq

/-- A mutator whose records the replayer reads as it meant them: when it appends a record,
the state it goes to is the replay of that record. -/
structure Replays {α : Type} (mt : Mutator α) : Prop where
  next_eq : ∀ {ch cs record next result}, mt.check = none →
    mt.plan ch cs = .ok (.write record next result) → next = replayRecord cs record
  sound : ∀ {ch cs record next result}, SeqsOK cs →
    mt.plan ch cs = .ok (.write record next result) → record.Sound
  version : ∀ {ch cs record next result},
    mt.plan ch cs = .ok (.write record next result) → record.v = recordVersion

theorem inInt64_recordVersion : InInt64 recordVersion := ⟨by decide, by decide⟩

theorem inInt64_zero : InInt64 0 := ⟨by decide, by decide⟩

/-- What a plan of `withMessage` that writes has found. -/
theorem withMessage_write {α : Type} {cs : ChannelState} {seq : Int}
    {k : Nat → Message → Except Err (Plan α)} {p : Plan α}
    (h : withMessage cs seq k = .ok p) :
    ∃ i m, cs.message seq = some (i, m) ∧ k i m = .ok p := by
  unfold withMessage at h
  cases hm : cs.message seq with
  | none =>
    rw [hm] at h
    exact nomatch h
  | some im =>
    rw [hm] at h
    exact ⟨im.1, im.2, rfl, h⟩

/-- A plan that writes is not another plan. -/
theorem write_inj {α : Type} {record record' : Record} {next next' : ChannelState}
    {result result' : α}
    (h : (Except.ok (.write record next result) : Except Err (Plan α)) =
      .ok (.write record' next' result')) : record = record' ∧ next = next' := by
  obtain ⟨h₁, h₂, -⟩ := Plan.write.inj (Except.ok.inj h)
  exact ⟨h₁, h₂⟩

/-- What a record of the mutators that address a message has in common. -/
structure Addresses (cs : ChannelState) (n : Int) (record : Record) : Prop where
  found : ∃ i m, cs.message n = some (i, m)
  v : record.v = recordVersion
  seq : record.seq = 0
  target : record.target = n
  threadRoot : record.threadRoot = 0

theorem Addresses.sound {cs : ChannelState} (hcs : SeqsOK cs) {n : Int} {record : Record}
    (h : Addresses cs n record) : record.Sound := by
  obtain ⟨i, m, hm⟩ := h.found
  exact { v := h.v ▸ inInt64_recordVersion, seq := h.seq ▸ inInt64_zero,
          target := h.target ▸ hcs.used _ _ (message_eq_some hm).1,
          threadRoot := h.threadRoot ▸ inInt64_zero }

theorem Replays.of_addresses {α : Type} {mt : Mutator α} {n : Int}
    (h : ∀ {ch cs record next result}, mt.plan ch cs = .ok (.write record next result) →
      Addresses cs n record ∧ next = replayRecord cs record) : Replays mt where
  next_eq _ hplan := (h hplan).2
  sound hcs hplan := (h hplan).1.sound hcs
  version hplan := (h hplan).1.v

theorem replays_editMessage (now : Time) (seq : Int) (body : String) :
    Replays (Store.editMessage now seq body) := by
  refine Replays.of_addresses (n := seq) fun h => ?_
  obtain ⟨i, m, hm, hk⟩ := withMessage_write h
  split at hk
  · exact nomatch hk
  · next hlive =>
    obtain ⟨rfl, rfl⟩ := write_inj hk
    refine ⟨⟨⟨i, m, hm⟩, rfl, rfl, rfl, rfl⟩, ?_⟩
    rw [replayRecord_edit rfl, replayEdit]
    simp only [hm, if_pos (of_not_not hlive)]
    exact update_congr (message_eq_some hm).2 rfl

theorem replays_deleteMessage (now : Time) (seq : Int) :
    Replays (Store.deleteMessage now seq) := by
  refine Replays.of_addresses (n := seq) fun {_ cs _ _ _} h => ?_
  obtain ⟨i, m, hm, hk⟩ := withMessage_write h
  split at hk
  · exact nomatch hk
  · next hlive =>
    obtain ⟨rfl, rfl⟩ := write_inj hk
    refine ⟨⟨⟨i, m, hm⟩, rfl, rfl, rfl, rfl⟩, ?_⟩
    have hsame : (cs.update i fun m =>
        { m with deletedAt := some now, body := "", reactions := [] }) =
        cs.update i fun _ => { m with deletedAt := some now, body := "", reactions := [] } :=
      update_congr (message_eq_some hm).2 rfl
    rw [replayRecord_delete rfl, replayDelete]
    simp only [hm, if_pos (of_not_not hlive), hsame]

theorem replays_addReaction (now : Time) (seq : Int) (userID emoji : String) :
    Replays (Store.addReaction now seq userID emoji) := by
  refine Replays.of_addresses (n := seq) fun h => ?_
  obtain ⟨i, m, hm, hk⟩ := withMessage_write h
  split at hk
  · exact nomatch hk
  split at hk
  · exact nomatch hk
  · next hlive hnot =>
    obtain ⟨rfl, rfl⟩ := write_inj hk
    refine ⟨⟨⟨i, m, hm⟩, rfl, rfl, rfl, rfl⟩, ?_⟩
    rw [replayRecord_react rfl, replayReact]
    simp only [hm, if_pos (And.intro (of_not_not hlive) (Bool.eq_false_iff.mpr hnot))]
    exact update_congr (message_eq_some hm).2 rfl

theorem replays_removeReaction (now : Time) (seq : Int) (userID emoji : String) :
    Replays (Store.removeReaction now seq userID emoji) := by
  refine Replays.of_addresses (n := seq) fun h => ?_
  obtain ⟨i, m, hm, hk⟩ := withMessage_write h
  split at hk
  · exact nomatch hk
  · obtain ⟨rfl, rfl⟩ := write_inj hk
    refine ⟨⟨⟨i, m, hm⟩, rfl, rfl, rfl, rfl⟩, ?_⟩
    rw [replayRecord_unreact rfl, replayUnreact]
    simp only [hm]
    exact update_congr (message_eq_some hm).2 rfl

/-- A thread root that passes its check is a number in use, or 0. -/
theorem inInt64_of_checkRoot {cs : ChannelState} (hcs : SeqsOK cs) {threadRoot : Int}
    (h : checkRoot cs threadRoot = none) : InInt64 threadRoot := by
  unfold checkRoot at h
  split at h
  · next h0 => exact h0 ▸ inInt64_zero
  · cases hm : cs.message threadRoot with
    | none =>
      rw [hm] at h
      exact nomatch h
    | some im => exact hcs.used _ _ (message_eq_some hm).1

theorem replays_createMessage (now : Time) (authorID authorName clientMsgID body : String)
    (threadRoot : Int) :
    Replays (Store.createMessage now authorID authorName clientMsgID body threadRoot) := by
  have hplan : ∀ {ch cs record next result},
      (Store.createMessage now authorID authorName clientMsgID body threadRoot).plan ch cs =
        .ok (.write record next result) →
      checkRoot cs threadRoot = none ∧
        record = { v := recordVersion, op := opCreate, seq := cs.nextSeq, threadRoot, authorID,
                   authorName, clientMsgID, body := trimSpace body, at' := now } ∧
        (clientMsgID ≠ "" → next = replayCreate cs record) := by
    intro ch cs record next result h
    simp only [Store.createMessage] at h
    split at h
    · exact nomatch h
    split at h
    · exact nomatch h
    split at h
    · exact nomatch h
    · next hroot =>
      obtain ⟨rfl, rfl⟩ := write_inj h
      refine ⟨hroot, rfl, fun hclient => ?_⟩
      simp only [replayCreate, if_pos (Int.le_refl _), if_pos hclient]
  refine { next_eq := fun hcheck h => ?_, sound := fun hcs h => ?_, version := fun h => ?_ }
  · obtain ⟨-, rfl, hnext⟩ := hplan h
    rw [replayRecord_create rfl]
    refine hnext fun hempty => ?_
    simp [Store.createMessage, hempty] at hcheck
  · obtain ⟨hroot, rfl, -⟩ := hplan h
    exact { v := inInt64_recordVersion, seq := hcs.next, target := inInt64_zero,
            threadRoot := inInt64_of_checkRoot hcs hroot }
  · obtain ⟨-, rfl, -⟩ := hplan h
    rfl

/-! ## Sequence numbers -/

theorem seqsOK_update {cs : ChannelState} (h : SeqsOK cs) (i : Nat) (f : Message → Message) :
    SeqsOK (cs.update i f) :=
  { next := h.next, used := h.used }

theorem seqsOK_emptyState : SeqsOK emptyState :=
  { next := ⟨by decide, by decide⟩, used := fun _ _ h => (nomatch h) }

theorem seqsOK_replayCreate {cs : ChannelState} (h : SeqsOK cs) {rec : Record}
    (hrec : rec.Sound) : SeqsOK (replayCreate cs rec) := by
  have hnew : ∀ (msgs : List Message) (byClient : String → Option Nat),
      SeqsOK { msgs, byClient,
               bySeq := Function.update cs.bySeq rec.seq (some cs.msgs.length)
               nextSeq := if cs.nextSeq ≤ rec.seq then incr64 rec.seq else cs.nextSeq } := by
    refine fun _ _ => { next := ?_, used := fun seq i hi => ?_ }
    · show InInt64 (if cs.nextSeq ≤ rec.seq then _ else _)
      split
      · exact inInt64_incr64 hrec.seq
      · exact h.next
    · by_cases hseq : seq = rec.seq
      · exact hseq ▸ hrec.seq
      · refine h.used seq i ?_
        rw [← hi]
        exact (Function.update_of_ne hseq _ _).symm
  unfold replayCreate
  simp only
  split
  · split
    · exact seqsOK_update (hnew _ _) _ _
    · exact hnew _ _
  · exact hnew _ _

theorem seqsOK_replayRecord {cs : ChannelState} (h : SeqsOK cs) {rec : Record}
    (hrec : rec.Sound) : SeqsOK (replayRecord cs rec) := by
  unfold replayRecord
  split
  · exact seqsOK_replayCreate h hrec
  split
  · unfold replayEdit
    repeat' split
    all_goals first | exact h | exact seqsOK_update h _ _
  split
  · unfold replayDelete
    simp only
    repeat' split
    all_goals first
      | exact h
      | exact seqsOK_update h _ _
      | exact seqsOK_update (seqsOK_update h _ _) _ _
  split
  · unfold replayReact
    repeat' split
    all_goals first | exact h | exact seqsOK_update h _ _
  split
  · unfold replayUnreact
    split
    · exact seqsOK_update h _ _
    · exact h
  · exact h

theorem seqsOK_replayMessages {recs : List Record} (h : ∀ rec ∈ recs, rec.Sound) :
    SeqsOK (replayMessages recs) := by
  have hfold : ∀ (recs : List Record) (cs : ChannelState), (∀ rec ∈ recs, rec.Sound) →
      SeqsOK cs → SeqsOK (recs.foldl replayRecord cs) := by
    intro recs
    induction recs with
    | nil => exact fun _ _ hcs => hcs
    | cons rec recs ih =>
      intro cs hrecs hcs
      exact ih _ (fun r hr => hrecs r (List.mem_cons_of_mem _ hr))
        (seqsOK_replayRecord hcs (hrecs rec List.mem_cons_self))
  exact hfold recs _ h seqsOK_emptyState

end FusionLocalServer.Chat
