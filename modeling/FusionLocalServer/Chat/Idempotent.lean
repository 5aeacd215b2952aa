import FusionLocalServer.Chat.Calls
import Mathlib.Data.List.Nodup

/-!
# A message is sent once

A client gives each of its messages an id, and sends a message again under the same id when it
does not hear back. The index of the ids is rebuilt from the log, and it is looked at before
anything is written: an id that is taken answers with the message that took it, and one that
is not makes a message.
-/

namespace FusionLocalServer.Chat

open Lib

/-! ## The index -/

/-- The index finds the message of every id that was taken, and no other. -/
structure Indexed (recs : List Record) (cs : ChannelState) : Prop where
  sound : ∀ (clientMsgID : String) i, cs.byClient clientMsgID = some i →
    ∃ rec, (creations recs)[i]? = some rec ∧ rec.clientMsgID = clientMsgID
  complete : ∀ rec ∈ creations recs, rec.clientMsgID ≠ "" → (cs.byClient rec.clientMsgID).isSome

theorem indexed_replayMessages (recs : List Record) : Indexed recs (replayMessages recs) := by
  induction recs using List.reverseRecOn with
  | nil => exact ⟨fun _ _ h => (nomatch h), fun _ h => (nomatch h)⟩
  | append_singleton recs rec ih =>
    rw [replayMessages_snoc]
    have hsame : ∀ (clientMsgID : String) i, (replayMessages recs).byClient clientMsgID = some i →
        ∃ r, (creations recs ++ if rec.op = opCreate then [rec] else [])[i]? = some r ∧
          r.clientMsgID = clientMsgID := by
      intro clientMsgID i hi
      obtain ⟨r, hr, hclient⟩ := ih.sound clientMsgID i hi
      have hlt := (List.getElem?_eq_some_iff.mp hr).1
      exact ⟨r, (List.getElem?_append_left hlt).trans hr, hclient⟩
    by_cases hop : rec.op = opCreate
    · obtain ⟨-, hindex, -⟩ := replayRecord_creation hop
      have hlen : (replayMessages recs).msgs.length = (creations recs).length := by
        have hsent := congrArg List.length (replayMessages_sent recs)
        rwa [List.length_map, List.length_map] at hsent
      constructor
      · rw [creations_snoc, hindex]
        intro clientMsgID i hi
        by_cases hclient : rec.clientMsgID = ""
        · rw [if_neg (not_not.mpr hclient)] at hi
          exact hsame clientMsgID i hi
        · rw [if_pos hclient] at hi
          by_cases hid : clientMsgID = rec.clientMsgID
          · rw [hid, Function.update_self] at hi
            cases hi
            refine ⟨rec, ?_, hid.symm⟩
            rw [hlen, if_pos hop, List.getElem?_append_right (Nat.le_refl _), Nat.sub_self]
            rfl
          · rw [Function.update_of_ne hid] at hi
            exact hsame clientMsgID i hi
      · intro r hr hne
        rw [hindex]
        rw [creations_snoc, if_pos hop] at hr
        rcases List.mem_append.mp hr with hr | hr
        · by_cases hclient : rec.clientMsgID = ""
          · rw [if_neg (not_not.mpr hclient)]
            exact ih.complete r hr hne
          · rw [if_pos hclient]
            by_cases hid : r.clientMsgID = rec.clientMsgID
            · rw [hid, Function.update_self]
              rfl
            · rw [Function.update_of_ne hid]
              exact ih.complete r hr hne
        · obtain rfl := List.mem_singleton.mp hr
          rw [if_pos hne, Function.update_self]
          rfl
    · obtain ⟨-, hindex, -⟩ := replayRecord_other hop
      constructor
      · rw [creations_snoc, hindex]
        exact hsame
      · rw [creations_snoc, hindex, if_neg hop, List.append_nil]
        exact ih.complete

/-- What the index finds in the state of a log. -/
def Found (recs : List Record) (clientMsgID : String) : Option Message :=
  ((replayMessages recs).byClient clientMsgID).bind fun i => (replayMessages recs).msgs[i]?

theorem found_sent {recs : List Record} {clientMsgID : String} {m : Message}
    (h : Found recs clientMsgID = some m) :
    ∃ rec ∈ creations recs, rec.clientMsgID = clientMsgID ∧ m.sent = rec.sent := by
  obtain ⟨i, hi, hm⟩ := Option.bind_eq_some_iff.mp h
  obtain ⟨rec, hrec, hclient⟩ := (indexed_replayMessages recs).sound clientMsgID i hi
  refine ⟨rec, List.mem_of_getElem? hrec, hclient, ?_⟩
  have hsent := congrArg (fun l => l[i]?) (replayMessages_sent recs)
  rw [List.getElem?_map, List.getElem?_map, hm, hrec] at hsent
  exact Option.some.inj hsent

theorem found_of_taken {recs : List Record} {rec : Record} (h : rec ∈ creations recs)
    (hne : rec.clientMsgID ≠ "") : (Found recs rec.clientMsgID).isSome := by
  obtain ⟨i, hi⟩ := Option.isSome_iff_exists.mp ((indexed_replayMessages recs).complete rec h hne)
  obtain ⟨r, hr, -⟩ := (indexed_replayMessages recs).sound _ i hi
  have hsent := congrArg (fun l => l[i]?) (replayMessages_sent recs)
  rw [List.getElem?_map, List.getElem?_map, hr] at hsent
  obtain ⟨m, hm, -⟩ := Option.map_eq_some_iff.mp hsent
  unfold Found
  rw [hi, Option.bind_some, hm]
  rfl

/-! ## What a call adds -/

/-- The records of creation have ids of their own. -/
structure Distinct (recs : List Record) : Prop where
  ids : ((creations recs).map Record.clientMsgID).Nodup
  nonempty : ∀ rec ∈ creations recs, rec.clientMsgID ≠ ""

theorem Distinct.unique {recs : List Record} (h : Distinct recs) {rec rec' : Record}
    (hrec : rec ∈ creations recs) (hrec' : rec' ∈ creations recs)
    (hsame : rec.clientMsgID = rec'.clientMsgID) : rec = rec' :=
  List.inj_on_of_nodup_map h.ids hrec hrec' hsame

theorem Distinct.snoc {recs : List Record} (h : Distinct recs) {rec : Record}
    (hnew : rec.op = opCreate → rec.clientMsgID ≠ "" ∧
      ∀ r ∈ creations recs, r.clientMsgID ≠ rec.clientMsgID) : Distinct (recs ++ [rec]) := by
  by_cases hop : rec.op = opCreate
  · obtain ⟨hne, hother⟩ := hnew hop
    constructor
    · rw [creations_snoc, if_pos hop, List.map_append, List.nodup_append]
      refine ⟨h.ids, List.nodup_singleton _, fun id hid id' hid' => ?_⟩
      obtain ⟨r, hr, rfl⟩ := List.mem_map.mp hid
      rw [List.mem_singleton.mp hid']
      exact hother r hr
    · rw [creations_snoc, if_pos hop]
      intro r hr
      rcases List.mem_append.mp hr with hr | hr
      · exact h.nonempty r hr
      · rw [List.mem_singleton.mp hr]
        exact hne
  · constructor
    · rw [creations_snoc, if_neg hop, List.append_nil]
      exact h.ids
    · rw [creations_snoc, if_neg hop, List.append_nil]
      exact h.nonempty

/-- What `CreateMessage` comes to for a channel that is loaded: the message that has the id, or
a new one, or an error that depends on the thread. -/
theorem createMessage_plan (now : Time) (authorID authorName clientMsgID body : String)
    (threadRoot : Int) (ch : Channel) (recs : List Record) (hlive : ch.archivedAt = none) :
    (∃ m, Found recs clientMsgID = some m ∧
      (Store.createMessage now authorID authorName clientMsgID body threadRoot).plan ch
        (replayMessages recs) = .ok (.reply (m, false))) ∨
    (Found recs clientMsgID = none ∧
      ((∃ e, checkRoot (replayMessages recs) threadRoot = some e ∧
        (Store.createMessage now authorID authorName clientMsgID body threadRoot).plan ch
          (replayMessages recs) = .error e) ∨
      ∃ record next m, checkRoot (replayMessages recs) threadRoot = none ∧
        (Store.createMessage now authorID authorName clientMsgID body threadRoot).plan ch
          (replayMessages recs) = .ok (.write record next (m, true)) ∧
        record.op = opCreate ∧ record.sent = m.sent ∧ record.at' = now ∧
        m.authorID = authorID ∧ m.clientMsgID = clientMsgID ∧ m.body = trimSpace body)) := by
  unfold Store.createMessage
  dsimp only
  rw [if_neg (not_not.mpr hlive)]
  cases hfound : ((replayMessages recs).byClient clientMsgID).bind fun i =>
      (replayMessages recs).msgs[i]? with
  | some m => exact .inl ⟨m, hfound, rfl⟩
  | none =>
    refine .inr ⟨hfound, ?_⟩
    cases hroot : checkRoot (replayMessages recs) threadRoot with
    | some e => exact .inl ⟨e, rfl, rfl⟩
    | none => exact .inr ⟨_, _, _, rfl, rfl, rfl, rfl, rfl, rfl, rfl, rfl⟩

/-- A record of creation is written only under an id that is free. -/
theorem createMessage_writes {now : Time} {authorID authorName clientMsgID body : String}
    {threadRoot : Int} {ch : Channel} {recs : List Record} {record : Record}
    {next : ChannelState} {result : Message × Bool}
    (h : (Store.createMessage now authorID authorName clientMsgID body threadRoot).plan ch
      (replayMessages recs) = .ok (.write record next result)) :
    Found recs clientMsgID = none ∧ record.clientMsgID = clientMsgID := by
  cases hlive : ch.archivedAt with
  | some at' =>
    unfold Store.createMessage at h
    dsimp only at h
    rw [hlive, if_pos (Option.some_ne_none at')] at h
    cases h
  | none =>
    rcases createMessage_plan now authorID authorName clientMsgID body threadRoot ch recs hlive with
      ⟨m, -, hplan⟩ | ⟨hfree, ⟨e, -, hplan⟩ | ⟨_, _, m, -, hplan, -, hsent, -, -, hclient, -⟩⟩
    · rw [hplan] at h
      cases h
    · rw [hplan] at h
      cases h
    · rw [hplan] at h
      obtain ⟨rfl, -⟩ := write_inj h
      exact ⟨hfree, (congrArg (fun sent => sent.2.2) hsent).trans hclient⟩

/-- A mutator that creates no message. -/
def CreatesNone (mt : Mutator Message) : Prop :=
  ∀ ch cs record next result, mt.plan ch cs = .ok (.write record next result) → record.op ≠ opCreate

theorem createsNone_editMessage (now : Time) (seq : Int) (body : String) :
    CreatesNone (Store.editMessage now seq body) := by
  intro ch cs record next result h
  obtain ⟨i, m, -, hk⟩ := withMessage_write h
  split at hk
  · cases hk
  · obtain ⟨rfl, -⟩ := write_inj hk
    show opEdit ≠ opCreate
    decide

theorem createsNone_deleteMessage (now : Time) (seq : Int) :
    CreatesNone (Store.deleteMessage now seq) := by
  intro ch cs record next result h
  obtain ⟨i, m, -, hk⟩ := withMessage_write h
  split at hk
  · cases hk
  · obtain ⟨rfl, -⟩ := write_inj hk
    show opDelete ≠ opCreate
    decide

theorem createsNone_addReaction (now : Time) (seq : Int) (userID emoji : String) :
    CreatesNone (Store.addReaction now seq userID emoji) := by
  intro ch cs record next result h
  obtain ⟨i, m, -, hk⟩ := withMessage_write h
  split at hk
  · cases hk
  split at hk
  · cases hk
  · obtain ⟨rfl, -⟩ := write_inj hk
    show opReact ≠ opCreate
    decide

theorem createsNone_removeReaction (now : Time) (seq : Int) (userID emoji : String) :
    CreatesNone (Store.removeReaction now seq userID emoji) := by
  intro ch cs record next result h
  obtain ⟨i, m, -, hk⟩ := withMessage_write h
  split at hk
  · cases hk
  · obtain ⟨rfl, -⟩ := write_inj hk
    show opUnreact ≠ opCreate
    decide

/-- A call keeps the ids apart when its record does. -/
theorem Distinct.run {α : Type} {mt : Mutator α} {ch : Channel} (h : Distinct ch.acked)
    (hsync : Synced ch) (env : Env)
    (hnew : ∀ ch₁ record next result, mt.check = none →
      mt.plan ch₁ (replayMessages ch.acked) = .ok (.write record next result) →
      record.op = opCreate → record.clientMsgID ≠ "" ∧
        ∀ r ∈ creations ch.acked, r.clientMsgID ≠ record.clientMsgID) :
    Distinct (mt.run ch env).1.acked := by
  have hframe := (channelState_frame ch env).2
  have hran := mt.ran ch env
  generalize mt.run ch env = out at hran
  cases hran with
  | refused _ => exact h
  | unloaded _ hload =>
    rw [hload] at hframe
    exact hframe.symm ▸ h
  | failed _ hload _ =>
    rw [hload] at hframe
    exact hframe.symm ▸ h
  | replied _ hload _ =>
    rw [hload] at hframe
    exact hframe.symm ▸ h
  | torn _ hload _ _ =>
    rw [hload] at hframe
    exact hframe.symm ▸ h
  | @written ch₁ cs next record result f hcheck hload hplan happend =>
    obtain ⟨hsync', -, hloaded⟩ := hsync.channelState env
    rw [hload] at hframe hsync' hloaded
    have hacked : ch₁.acked = ch.acked := hframe
    have hcs : cs = replayMessages ch.acked :=
      hacked ▸ hsync'.loaded cs (hloaded cs rfl).1
    rw [hcs] at hplan
    show Distinct (ch₁.acked ++ [record])
    rw [hacked]
    exact h.snoc (hnew ch₁ record next result hcheck hplan)

theorem Distinct.exec {ch : Channel} (h : Distinct ch.acked) (hsync : Synced ch) (env : Env)
    (op : Op) : Distinct (exec ch env op).acked := by
  cases op with
  | create authorID authorName clientMsgID body threadRoot =>
    refine h.run hsync env fun ch₁ record next result hcheck hplan _ => ?_
    obtain ⟨hfree, hclient⟩ := createMessage_writes hplan
    have hne : clientMsgID ≠ "" := fun hempty => by
      simp [Store.createMessage, hempty] at hcheck
    refine ⟨hclient ▸ hne, fun r hr heq => ?_⟩
    have htaken := found_of_taken hr (heq.trans hclient ▸ hne)
    rw [heq, hclient, hfree] at htaken
    cases htaken
  | edit seq body =>
    exact h.run hsync env fun _ _ _ _ _ hplan hop =>
      absurd hop (createsNone_editMessage env.now seq body _ _ _ _ _ hplan)
  | delete seq =>
    exact h.run hsync env fun _ _ _ _ _ hplan hop =>
      absurd hop (createsNone_deleteMessage env.now seq _ _ _ _ _ hplan)
  | react seq userID emoji =>
    exact h.run hsync env fun _ _ _ _ _ hplan hop =>
      absurd hop (createsNone_addReaction env.now seq userID emoji _ _ _ _ _ hplan)
  | unreact seq userID emoji =>
    exact h.run hsync env fun _ _ _ _ _ hplan hop =>
      absurd hop (createsNone_removeReaction env.now seq userID emoji _ _ _ _ _ hplan)
  | archive => exact h
  | restart => exact h

/-! ## Sending again -/

/-- How a channel answers a call of `CreateMessage`. A call whose id a message has gets that
message, and nothing is written; a call whose id is free gets a message of its own, unless it
fails and creates nothing, which it does not without a fault when its thread has a root. -/
structure SendsOnce (ch : Channel) (env : Env) (authorID authorName clientMsgID body : String)
    (threadRoot : Int) (answer : Channel × Except Err (Message × Bool)) : Prop where
  again : ∀ rec ∈ ch.acked, rec.op = opCreate → rec.clientMsgID = clientMsgID →
    ∃ m, answer.2 = .ok (m, false) ∧ m.sent = rec.sent ∧ answer.1.acked = ch.acked ∧
      answer.1.loaded = some (replayMessages ch.acked)
  first : (∀ rec ∈ ch.acked, rec.op = opCreate → rec.clientMsgID ≠ clientMsgID) →
    (∀ m created, answer.2 = .ok (m, created) → created = true ∧ m.authorID = authorID ∧
      m.clientMsgID = clientMsgID ∧ m.body = trimSpace body ∧
      ∃ rec, rec.op = opCreate ∧ rec.sent = m.sent ∧ answer.1.acked = ch.acked ++ [rec]) ∧
    (∀ e, answer.2 = .error e → answer.1.acked = ch.acked) ∧
    (checkRoot (replayMessages ch.acked) threadRoot = none → env.write = .full →
      (formatTime env.now).isSome → answer.2.toBool = true)

/-- A mutator that is let in does what it plans. -/
theorem Mutator.run_plan {α : Type} {mt : Mutator α} {ch ch₁ : Channel} {env : Env}
    {cs : ChannelState} (hcheck : mt.check = none) (hstate : ch.channelState env = (ch₁, .ok cs))
    {plan : Except Err (Plan α)} : mt.plan ch₁ cs = plan →
    mt.run ch env =
      match plan with
      | .error e => (ch₁, .error e)
      | .ok (.reply result) => (ch₁, .ok result)
      | .ok (.write rec next result) =>
        match appendRecord ch₁.file rec env.write with
        | (f, .error e) => ({ ch₁ with file := f }, .error e)
        | (f, .ok ()) =>
          ({ ch₁ with file := f, loaded := some next, acked := ch₁.acked ++ [rec] },
            .ok result) := by
  intro hplan
  unfold Mutator.run
  rw [hcheck, hstate]
  dsimp only
  subst hplan
  rcases mt.plan ch₁ cs with _ | _ | _ <;> rfl

/-- **A message is sent once.** After any calls, and reloads of the log in between, a call under
an id that is taken answers with the message that the first call under it created, and creates
nothing; and a call under an id that is free creates its own. -/
theorem sent_once (name : String) {es : List (Env × Op)} {ch : Channel}
    (hrun : Run Step TailSafe (newChannel name) es ch) (hlive : ch.archivedAt = none)
    {env : Env} (hload : env.load = none) {authorID authorName clientMsgID body : String}
    {threadRoot : Int}
    (hcheck : (Store.createMessage env.now authorID authorName clientMsgID body threadRoot).check =
      none) :
    SendsOnce ch env authorID authorName clientMsgID body threadRoot
      ((Store.createMessage env.now authorID authorName clientMsgID body threadRoot).run ch env) := by
  have hinv : Synced ch ∧ Distinct ch.acked := by
    refine hrun.invariant (P := fun ch => Synced ch ∧ Distinct ch.acked)
      ⟨synced_newChannel name, List.nodup_nil, fun _ h => absurd h List.not_mem_nil⟩ ?_
    rintro ch ⟨env, op⟩ _ ⟨hsync, hdistinct⟩ hsafe rfl
    exact ⟨hsync.exec hsafe, hdistinct.exec hsync env op⟩
  obtain ⟨hsync, hdistinct⟩ := hinv
  obtain ⟨ch₁, hstate⟩ := hsync.loads hload
  obtain ⟨harchived, hacked⟩ := channelState_frame ch env
  obtain ⟨-, -, hloaded⟩ := hsync.channelState env
  rw [hstate] at harchived hacked hloaded
  have hloaded₁ : ch₁.loaded = some (replayMessages ch.acked) := (hloaded _ rfl).1
  rcases createMessage_plan env.now authorID authorName clientMsgID body threadRoot ch₁ ch.acked
    (harchived.trans hlive) with ⟨m, hfound, hplan⟩ | ⟨hfree, hnew⟩
  · rw [Mutator.run_plan hcheck hstate hplan]
    obtain ⟨rec', hrec', hclient', hsent⟩ := found_sent hfound
    refine ⟨fun rec hrec hop hclient => ⟨m, rfl, ?_, hacked, hloaded₁⟩, fun hnone => ?_⟩
    · rw [hsent, hdistinct.unique hrec' (mem_creations.mpr ⟨hrec, hop⟩) (hclient'.trans hclient.symm)]
    · obtain ⟨hmem, hop⟩ := mem_creations.mp hrec'
      exact absurd hclient' (hnone rec' hmem hop)
  · have hagain : ∀ rec ∈ ch.acked, rec.op = opCreate → rec.clientMsgID ≠ clientMsgID := by
      rintro rec hrec hop rfl
      have hmem := mem_creations.mpr ⟨hrec, hop⟩
      have htaken := found_of_taken hmem (hdistinct.nonempty rec hmem)
      rw [hfree] at htaken
      cases htaken
    rcases hnew with ⟨e, hroot, hplan⟩ | ⟨record, next, m, hroot, hplan, hop, hsent, hat, hauthor,
      hclient, hbody⟩
    · rw [Mutator.run_plan hcheck hstate hplan]
      refine ⟨fun rec hrec hop hid => absurd hid (hagain rec hrec hop), fun _ =>
        ⟨fun _ _ hok => (by cases hok), fun _ _ => hacked, fun hnone => ?_⟩⟩
      rw [hnone] at hroot
      cases hroot
    · rw [Mutator.run_plan hcheck hstate hplan]
      dsimp only
      refine ⟨fun rec hrec hop hid => absurd hid (hagain rec hrec hop), fun _ =>
        ⟨?_, ?_, ?_⟩⟩
      · intro m' created hok
        cases happend : appendRecord ch₁.file record env.write with
        | mk f appended =>
          rw [happend] at hok
          cases appended with
          | error e => cases hok
          | ok _ =>
            cases hok
            exact ⟨rfl, hauthor, hclient, hbody, record, hop, hsent, congrArg (· ++ [record]) hacked⟩
      · intro e herror
        cases happend : appendRecord ch₁.file record env.write with
        | mk f appended =>
          rw [happend] at herror
          cases appended with
          | error e => exact hacked
          | ok _ => cases herror
      · intro _ hfull htime
        obtain ⟨time, htime⟩ := Option.isSome_iff_exists.mp htime
        unfold appendRecord Record.marshal
        rw [hat, htime, hfull]
        rfl

/-- A message, a restart, and the message again. -/
def resentRun : List (Env × Op) :=
  [(callEnv .full, .create "u1" "Ada" "m1" "first" 0), (callEnv .full, .restart)]

def resentChannel : Channel :=
  resentRun.foldl (fun ch e => exec ch e.1 e.2) (newChannel "general")

theorem sent_once_resent : ∃ m : Message,
    ((Store.createMessage (callEnv .full).now "u1" "Ada" "m1" "first" 0).run resentChannel
      (callEnv .full)).2 = .ok (m, false) ∧ m.sent = (1, "u1", "m1") := by
  have hrun : Run Step TailSafe (newChannel "general") resentRun resentChannel :=
    .cons (fun _ _ h => (nomatch h)) rfl (.single (fun _ _ _ h => (nomatch h)) rfl)
  have hsent : resentChannel.acked.map (fun rec => (rec.op, rec.sent)) =
      [(opCreate, 1, "u1", "m1")] := by decide +kernel
  obtain ⟨rec, rest, hacked, hrec, hrest⟩ := List.map_eq_cons_iff.mp hsent
  obtain ⟨hop, hrec⟩ := Prod.mk.inj hrec
  have honce : SendsOnce resentChannel (callEnv .full) "u1" "Ada" "m1" "first" 0
      ((Store.createMessage (callEnv .full).now "u1" "Ada" "m1" "first" 0).run resentChannel
        (callEnv .full)) :=
    sent_once "general" hrun (by decide +kernel) rfl (by decide +kernel)
  obtain ⟨m, hanswer, hm, -⟩ := honce.again rec (hacked ▸ List.mem_cons_self) hop
    (congrArg (fun sent => sent.2.2) hrec)
  exact ⟨m, hanswer, hm.trans hrec⟩

/-- **Someone else's message is swallowed** when it comes under an id that is taken. -/
theorem message_swallowed :
    Run Step TailSafe (newChannel "general") resentRun resentChannel ∧
      ∃ m : Message,
        ((Store.createMessage (callEnv .full).now "u2" "Bob" "m1" "second" 0).run resentChannel
          (callEnv .full)).2 = .ok (m, false) ∧ m.authorID = "u1" := by
  refine ⟨.cons (fun _ _ h => (nomatch h)) rfl (.single (fun _ _ _ h => (nomatch h)) rfl), ?_⟩
  have hanswer : ((Store.createMessage (callEnv .full).now "u2" "Bob" "m1" "second" 0).run
      resentChannel (callEnv .full)).2.toOption.map (fun answer => (answer.1.authorID, answer.2)) =
        some ("u1", false) := by decide +kernel
  obtain ⟨⟨m, created⟩, hok, heq⟩ := Option.map_eq_some_iff.mp hanswer
  obtain ⟨hauthor, rfl⟩ := Prod.mk.inj heq
  refine ⟨m, ?_, hauthor⟩
  revert hok
  generalize ((Store.createMessage (callEnv .full).now "u2" "Bob" "m1" "second" 0).run
    resentChannel (callEnv .full)).2 = answer
  cases answer with
  | error e => exact fun hok => (nomatch hok)
  | ok result => exact fun hok => congrArg Except.ok (Option.some.inj hok)

end FusionLocalServer.Chat
