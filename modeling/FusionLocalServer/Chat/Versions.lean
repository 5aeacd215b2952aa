import FusionLocalServer.Chat.Calls
import FusionLocalServer.Chat.Replay

/-!
# Versions of a message

What an operation answers with is the message as the store has it from then on, less the
counters that replies move: `Shows`, one lemma for each mutator. Every other message stays
as it was.
-/

namespace FusionLocalServer.Chat

open Lib

/-- A message without the counters of its thread. -/
def Message.own (m : Message) : Message := { m with replyCount := 0, lastReplyAt := none }

namespace ChannelState

/-- What the store has under a number. -/
def version (cs : ChannelState) (seq : Int) : Option Message := (cs.message seq).map fun im => im.2.own

/-- The index finds messages that carry the number they are found under. -/
def Tidy (cs : ChannelState) : Prop :=
  ∀ seq i, cs.bySeq seq = some i → ∃ m, cs.msgs[i]? = some m ∧ m.seq = seq

variable {cs next : ChannelState} {seq : Int} {i : Nat} {m : Message} {f : Message → Message}

theorem tidy_emptyState : emptyState.Tidy := fun _ _ h => nomatch h

theorem Tidy.seq_eq (h : cs.Tidy) (hm : cs.message seq = some (i, m)) : m.seq = seq := by
  obtain ⟨hindex, hget⟩ := message_eq_some hm
  obtain ⟨m', hget', hseq⟩ := h seq i hindex
  rw [hget] at hget'
  cases hget'
  exact hseq

/-- A message is updated in place and keeps its number. -/
theorem Tidy.update (h : cs.Tidy) (hf : ∀ m, cs.msgs[i]? = some m → (f m).seq = m.seq) :
    (cs.update i f).Tidy := by
  intro seq j hj
  obtain ⟨m, hget, hseq⟩ := h seq j hj
  show ∃ m, (cs.msgs.modify i f)[j]? = some m ∧ m.seq = seq
  rw [List.getElem?_modify, hget]
  by_cases hij : i = j
  · subst hij
    exact ⟨f m, by simp, (hf m hget).trans hseq⟩
  · exact ⟨m, by simp [hij], hseq⟩

theorem message_update (cs : ChannelState) (i : Nat) (f : Message → Message) (seq : Int) :
    (cs.update i f).message seq =
      (cs.message seq).map fun jm => if i = jm.1 then (jm.1, f jm.2) else jm := by
  unfold message
  show ((cs.bySeq seq).bind fun j => ((cs.msgs.modify i f)[j]?).map fun m => (j, m)) = _
  cases cs.bySeq seq with
  | none => rfl
  | some j =>
    rw [Option.bind_some, Option.bind_some, List.getElem?_modify]
    cases cs.msgs[j]? with
    | none => rfl
    | some m => by_cases hij : i = j <;> simp [hij]

/-- Counters are no part of a version. -/
theorem version_counters (cs : ChannelState) (i : Nat) (hf : ∀ m, (f m).own = m.own) (seq : Int) :
    (cs.update i f).version seq = cs.version seq := by
  unfold version
  rw [message_update, Option.map_map]
  refine Option.map_congr fun jm _ => ?_
  show (if i = jm.1 then (jm.1, f jm.2) else jm).2.own = jm.2.own
  split
  · exact hf jm.2
  · rfl

/-- `next` has the message `m` as its answer, and the others as `cs` has them. -/
structure Shows (cs next : ChannelState) (m : Message) : Prop where
  tidy : next.Tidy
  shown : next.version m.seq = some m.own
  frame : ∀ seq, seq ≠ m.seq → next.version seq = cs.version seq

/-- The counters of a thread can move as well. -/
theorem Shows.counters (h : Shows cs next m) (i : Nat) (hf : ∀ m, (f m).own = m.own) :
    Shows cs (next.update i f) m where
  tidy := h.tidy.update fun m _ =>
    show (f m).own.seq = m.own.seq by rw [hf]
  shown := (version_counters next i hf _).trans h.shown
  frame seq hseq := (version_counters next i hf seq).trans (h.frame seq hseq)

/-- The message that was found is changed. -/
theorem Tidy.shows (h : cs.Tidy) (hm : cs.message seq = some (i, m)) {m' : Message}
    (hseq : m'.seq = m.seq) : Shows cs (cs.update i fun _ => m') m' := by
  have hm' : m'.seq = seq := hseq.trans (h.seq_eq hm)
  refine ⟨h.update fun m₀ hm₀ => ?_, ?_, fun s hs => ?_⟩
  · rw [(message_eq_some hm).2] at hm₀
    cases hm₀
    exact hseq
  · rw [hm']
    unfold version
    rw [message_update, hm]
    simp
  · unfold version
    rw [message_update]
    cases hother : cs.message s with
    | none => rfl
    | some jm =>
      obtain ⟨j, m₁⟩ := jm
      -- another number is another place
      have hij : i ≠ j := by
        rintro rfl
        have heq := (message_eq_some hm).2.symm.trans (message_eq_some hother).2
        cases heq
        exact hs ((h.seq_eq hother).symm.trans ((h.seq_eq hm).trans hm'.symm))
      simp [hij]

theorem Tidy.version_eq (h : cs.Tidy) (hm : cs.message seq = some (i, m)) :
    cs.version m.seq = some m.own := by
  rw [h.seq_eq hm, version, hm]
  rfl

end ChannelState

/-! ## The mutators -/

open ChannelState

/-- What a mutator answers is the version in the store. -/
structure Tells (mt : Mutator Message) : Prop where
  reply : ∀ {ch cs m}, cs.Tidy → mt.plan ch cs = .ok (.reply m) → cs.version m.seq = some m.own
  write : ∀ {ch cs record next m}, cs.Tidy → mt.plan ch cs = .ok (.write record next m) →
    Shows cs next m

theorem tells_editMessage (now : Time) (seq : Int) (body : String) :
    Tells (Store.editMessage now seq body) := by
  constructor
  · intro ch cs m _ h
    obtain ⟨i, m₀, -, hk⟩ := withMessage_write h
    split at hk
    · cases hk
    · cases hk
  · intro ch cs record next m hcs h
    obtain ⟨i, m₀, hm, hk⟩ := withMessage_write h
    split at hk
    · cases hk
    · cases hk
      exact hcs.shows hm rfl

theorem tells_deleteMessage (now : Time) (seq : Int) : Tells (Store.deleteMessage now seq) := by
  constructor
  · intro ch cs m hcs h
    obtain ⟨i, m₀, hm, hk⟩ := withMessage_write h
    split at hk
    · cases hk
      exact hcs.version_eq hm
    · cases hk
  · intro ch cs record next m hcs h
    obtain ⟨i, m₀, hm, hk⟩ := withMessage_write h
    split at hk
    · cases hk
    · obtain ⟨-, rfl, rfl⟩ := Plan.write.inj (Except.ok.inj hk)
      have hshows : Shows cs (cs.update i fun _ =>
          { m₀ with deletedAt := some now, body := "", reactions := [] })
          { m₀ with deletedAt := some now, body := "", reactions := [] } := hcs.shows hm rfl
      dsimp only
      split
      · split
        · exact hshows.counters _ fun _ => rfl
        · exact hshows
      · exact hshows

theorem tells_addReaction (now : Time) (seq : Int) (userID emoji : String) :
    Tells (Store.addReaction now seq userID emoji) := by
  constructor
  · intro ch cs m hcs h
    obtain ⟨i, m₀, hm, hk⟩ := withMessage_write h
    split at hk
    · cases hk
    split at hk
    · cases hk
      exact hcs.version_eq hm
    · cases hk
  · intro ch cs record next m hcs h
    obtain ⟨i, m₀, hm, hk⟩ := withMessage_write h
    split at hk
    · cases hk
    split at hk
    · cases hk
    · cases hk
      exact hcs.shows hm rfl

theorem tells_removeReaction (now : Time) (seq : Int) (userID emoji : String) :
    Tells (Store.removeReaction now seq userID emoji) := by
  constructor
  · intro ch cs m hcs h
    obtain ⟨i, m₀, hm, hk⟩ := withMessage_write h
    split at hk
    · cases hk
      exact hcs.version_eq hm
    · cases hk
  · intro ch cs record next m hcs h
    obtain ⟨i, m₀, hm, hk⟩ := withMessage_write h
    split at hk
    · cases hk
    · cases hk
      exact hcs.shows hm rfl

/-- A message is added under the next number. -/
theorem ChannelState.Tidy.added {cs : ChannelState} (h : cs.Tidy) (m : Message)
    (byClient : String → Option Nat) (nextSeq : Int) :
    Shows cs { msgs := cs.msgs ++ [m]
               bySeq := Function.update cs.bySeq m.seq (some cs.msgs.length)
               byClient, nextSeq } m := by
  have hold : ∀ seq i, cs.bySeq seq = some i → i < cs.msgs.length := fun seq i hi => by
    obtain ⟨m₀, hget, -⟩ := h seq i hi
    exact (List.getElem?_eq_some_iff.mp hget).1
  refine ⟨fun seq i hi => ?_, ?_, fun seq hseq => ?_⟩
  · dsimp only at hi ⊢
    by_cases hnew : seq = m.seq
    · rw [hnew, Function.update_self] at hi
      cases hi
      exact ⟨m, by simp, hnew.symm⟩
    · rw [Function.update_of_ne hnew] at hi
      obtain ⟨m₀, hget, hm₀⟩ := h seq i hi
      exact ⟨m₀, (List.getElem?_append_left (hold seq i hi)).trans hget, hm₀⟩
  · dsimp only [version, message]
    rw [Function.update_self, Option.bind_some]
    simp
  · dsimp only [version, message]
    rw [Function.update_of_ne hseq]
    cases hi : cs.bySeq seq with
    | none => rfl
    | some i => rw [Option.bind_some, Option.bind_some, List.getElem?_append_left (hold seq i hi)]

/-- A message that is created is shown. -/
theorem createMessage_shows {now : Time} {authorID authorName clientMsgID body : String}
    {threadRoot : Int} {ch : Channel} {cs next : ChannelState} {record : Record}
    {m : Message} {created : Bool} (hcs : cs.Tidy)
    (h : (Store.createMessage now authorID authorName clientMsgID body threadRoot).plan ch cs =
      .ok (.write record next (m, created))) : created = true ∧ Shows cs next m := by
  unfold Store.createMessage at h
  dsimp only at h
  split at h
  · cases h
  split at h
  · cases h
  split at h
  · cases h
  · obtain ⟨-, rfl, hresult⟩ := Plan.write.inj (Except.ok.inj h)
    obtain ⟨rfl, rfl⟩ := Prod.mk.inj hresult
    refine ⟨rfl, ?_⟩
    have hadded := fun m => hcs.added m
      (Function.update cs.byClient clientMsgID (some cs.msgs.length)) (incr64 cs.nextSeq)
    split
    · split
      · exact (hadded _).counters _ fun _ => rfl
      · exact hadded _
    · exact hadded _

theorem createMessage_replies {now : Time} {authorID authorName clientMsgID body : String}
    {threadRoot : Int} {ch : Channel} {cs : ChannelState} {m : Message} {created : Bool}
    (h : (Store.createMessage now authorID authorName clientMsgID body threadRoot).plan ch cs =
      .ok (.reply (m, created))) : created = false := by
  unfold Store.createMessage at h
  dsimp only at h
  split at h
  · cases h
  split at h
  · cases h
    rfl
  split at h
  · cases h
  · cases h

end FusionLocalServer.Chat
