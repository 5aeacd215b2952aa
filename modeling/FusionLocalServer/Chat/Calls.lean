import FusionLocalServer.Chat.Durability

/-!
# How a call ends, and what it adds

A mutator is refused, fails to load the channel or to append its record, answers without
appending, or has its record on the log (`Ran`). What a log says of who sent which message
(`Message.sent`) is set by its records of creation alone, in their order.
-/

namespace FusionLocalServer.Chat

open Lib

/-- How the body of a mutator ends. -/
inductive Ran {α : Type} (mt : Mutator α) (ch : Channel) (env : Env) :
    Channel × Except Err α → Prop
  | refused {e : Err} : mt.check = some e → Ran mt ch env (ch, .error e)
  | unloaded {ch₁ : Channel} {e : Err} : mt.check = none →
      ch.channelState env = (ch₁, .error e) → Ran mt ch env (ch₁, .error e)
  | failed {ch₁ : Channel} {cs : ChannelState} {e : Err} : mt.check = none →
      ch.channelState env = (ch₁, .ok cs) → mt.plan ch₁ cs = .error e →
      Ran mt ch env (ch₁, .error e)
  | replied {ch₁ : Channel} {cs : ChannelState} {result : α} : mt.check = none →
      ch.channelState env = (ch₁, .ok cs) → mt.plan ch₁ cs = .ok (.reply result) →
      Ran mt ch env (ch₁, .ok result)
  | torn {ch₁ : Channel} {cs next : ChannelState} {record : Record} {result : α} {f : LogFile}
      {e : Err} : mt.check = none → ch.channelState env = (ch₁, .ok cs) →
      mt.plan ch₁ cs = .ok (.write record next result) →
      appendRecord ch₁.file record env.write = (f, .error e) →
      Ran mt ch env ({ ch₁ with file := f }, .error e)
  | written {ch₁ : Channel} {cs next : ChannelState} {record : Record} {result : α}
      {f : LogFile} : mt.check = none → ch.channelState env = (ch₁, .ok cs) →
      mt.plan ch₁ cs = .ok (.write record next result) →
      appendRecord ch₁.file record env.write = (f, .ok ()) →
      Ran mt ch env
        ({ ch₁ with file := f, loaded := some next, acked := ch₁.acked ++ [record] }, .ok result)

theorem Mutator.ran {α : Type} (mt : Mutator α) (ch : Channel) (env : Env) :
    Ran mt ch env (mt.run ch env) := by
  unfold Mutator.run
  cases hcheck : mt.check with
  | some e => exact .refused hcheck
  | none =>
    cases hload : ch.channelState env with
    | mk ch₁ result =>
      cases result with
      | error e => exact .unloaded hcheck hload
      | ok cs =>
        dsimp only
        cases hplan : mt.plan ch₁ cs with
        | error e => exact .failed hcheck hload hplan
        | ok plan =>
          cases plan with
          | reply result => exact .replied hcheck hload hplan
          | write record next result =>
            dsimp only
            cases happend : appendRecord ch₁.file record env.write with
            | mk f appended =>
              cases appended with
              | error e => exact .torn hcheck hload hplan happend
              | ok _ => exact .written hcheck hload hplan happend

/-- Loading a channel leaves its name, its archiving and what was acknowledged alone. -/
theorem channelState_frame (ch : Channel) (env : Env) :
    (ch.channelState env).1.archivedAt = ch.archivedAt ∧
      (ch.channelState env).1.acked = ch.acked := by
  unfold Channel.channelState
  split
  · exact ⟨rfl, rfl⟩
  · split
    · exact ⟨rfl, rfl⟩
    · split
      · exact ⟨rfl, rfl⟩
      · exact ⟨rfl, rfl⟩

/-- With no fault on the way a channel is loaded, and its state is what was acknowledged. -/
theorem Synced.loads {ch : Channel} (h : Synced ch) {env : Env} (hload : env.load = none) :
    ∃ ch₁, ch.channelState env = (ch₁, .ok (replayMessages ch.acked)) := by
  unfold Channel.channelState
  cases hloaded : ch.loaded with
  | some cs => exact ⟨ch, by rw [h.loaded cs hloaded]⟩
  | none =>
    obtain ⟨bs, frag, hbytes, hlines, hfrag⟩ := h.log
    have hok := replayLog_ok hbytes hlines hfrag
    rw [hload]
    cases hreplay : replayLog ch.file none with
    | mk f result =>
      rw [hreplay] at hok
      obtain rfl : result = .ok ch.acked := hok
      exact ⟨_, rfl⟩

/-! ## Who sent what -/

/-- The number of a message, its author, and the id the author's client gave it. -/
def Message.sent (m : Message) : Int × String × String := (m.seq, m.authorID, m.clientMsgID)

/-- The same, of a record of creation. -/
def Record.sent (rec : Record) : Int × String × String := (rec.seq, rec.authorID, rec.clientMsgID)

def creations (recs : List Record) : List Record := recs.filter fun rec => rec.op = opCreate

theorem mem_creations {recs : List Record} {rec : Record} :
    rec ∈ creations recs ↔ rec ∈ recs ∧ rec.op = opCreate := by
  unfold creations
  rw [List.mem_filter, decide_eq_true_iff]

theorem update_sent {cs : ChannelState} {i : Nat} {f : Message → Message}
    (hf : ∀ m, (f m).sent = m.sent) :
    (cs.update i f).msgs.map Message.sent = cs.msgs.map Message.sent := by
  show (cs.msgs.modify i f).map _ = _
  refine List.ext_getElem? fun j => ?_
  rw [List.getElem?_map, List.getElem?_map, List.getElem?_modify]
  cases cs.msgs[j]? with
  | none => rfl
  | some m =>
    show some (Message.sent (if i = j then f m else m)) = some m.sent
    split
    · rw [hf]
    · rfl

/-- A record of anything else leaves who sent what alone. -/
theorem replayRecord_other {cs : ChannelState} {rec : Record} (h : rec.op ≠ opCreate) :
    (replayRecord cs rec).msgs.map Message.sent = cs.msgs.map Message.sent ∧
      (replayRecord cs rec).byClient = cs.byClient ∧
      (replayRecord cs rec).nextSeq = cs.nextSeq := by
  have hupdate : ∀ (cs : ChannelState) (i : Nat) {f : Message → Message}, (∀ m, (f m).sent = m.sent) →
      (cs.update i f).msgs.map Message.sent = cs.msgs.map Message.sent ∧
        (cs.update i f).byClient = cs.byClient ∧ (cs.update i f).nextSeq = cs.nextSeq :=
    fun cs i f hf => ⟨update_sent hf, rfl, rfl⟩
  unfold replayRecord
  rw [if_neg h]
  split
  · unfold replayEdit
    split
    · split
      · exact hupdate _ _ fun _ => rfl
      · exact ⟨rfl, rfl, rfl⟩
    · exact ⟨rfl, rfl, rfl⟩
  split
  · unfold replayDelete
    split
    · next i m _ =>
      split
      · have hgone := hupdate cs i (f := fun m =>
          { m with deletedAt := some rec.at', body := "", reactions := [] }) fun _ => rfl
        dsimp only
        split
        · split
          · -- the counter of the thread's first message
            obtain ⟨hsent, hclient, hseq⟩ := hupdate (cs.update i fun m =>
              { m with deletedAt := some rec.at', body := "", reactions := [] }) _ (f := fun root =>
              { root with replyCount := root.replyCount - 1 }) fun _ => rfl
            exact ⟨hsent.trans hgone.1, hclient.trans hgone.2.1, hseq.trans hgone.2.2⟩
          · exact hgone
        · exact hgone
      · exact ⟨rfl, rfl, rfl⟩
    · exact ⟨rfl, rfl, rfl⟩
  split
  · unfold replayReact
    split
    · split
      · exact hupdate _ _ fun _ => rfl
      · exact ⟨rfl, rfl, rfl⟩
    · exact ⟨rfl, rfl, rfl⟩
  split
  · unfold replayUnreact
    split
    · exact hupdate _ _ fun _ => rfl
    · exact ⟨rfl, rfl, rfl⟩
  · exact ⟨rfl, rfl, rfl⟩

/-- A record of creation adds its message, and takes its client id. -/
theorem replayRecord_creation {cs : ChannelState} {rec : Record} (h : rec.op = opCreate) :
    (replayRecord cs rec).msgs.map Message.sent = cs.msgs.map Message.sent ++ [rec.sent] ∧
      (replayRecord cs rec).byClient = (if rec.clientMsgID ≠ "" then
        Function.update cs.byClient rec.clientMsgID (some cs.msgs.length) else cs.byClient) ∧
      (replayRecord cs rec).nextSeq = if cs.nextSeq ≤ rec.seq then incr64 rec.seq else cs.nextSeq := by
  rw [replayRecord_create h]
  unfold replayCreate
  dsimp only
  split
  · split
    · refine ⟨?_, rfl, rfl⟩
      rw [update_sent (f := fun root => { root with
        replyCount := incr64 root.replyCount, lastReplyAt := some rec.at' }) fun _ => rfl, List.map_append]
      rfl
    · refine ⟨?_, rfl, rfl⟩
      rw [List.map_append]
      rfl
  · refine ⟨?_, rfl, rfl⟩
    rw [List.map_append]
    rfl

theorem replayMessages_snoc (recs : List Record) (rec : Record) :
    replayMessages (recs ++ [rec]) = replayRecord (replayMessages recs) rec := by
  unfold replayMessages
  rw [List.foldl_append]
  rfl

theorem creations_snoc (recs : List Record) (rec : Record) :
    creations (recs ++ [rec]) = creations recs ++ if rec.op = opCreate then [rec] else [] := by
  unfold creations
  rw [List.filter_append, List.filter_singleton]
  by_cases h : rec.op = opCreate
  · rw [if_pos h, decide_eq_true h]
    rfl
  · rw [if_neg h, decide_eq_false h]
    rfl

/-- The messages of a log are those of its records of creation, in their order. -/
theorem replayMessages_sent (recs : List Record) :
    (replayMessages recs).msgs.map Message.sent = (creations recs).map Record.sent := by
  induction recs using List.reverseRecOn with
  | nil => rfl
  | append_singleton recs rec ih =>
    rw [replayMessages_snoc, creations_snoc]
    by_cases h : rec.op = opCreate
    · rw [if_pos h, (replayRecord_creation h).1, ih, List.map_append]
      rfl
    · rw [if_neg h, (replayRecord_other h).1, ih, List.append_nil]

end FusionLocalServer.Chat
