import Mathlib.Data.List.Nodup
import FusionLocalServer.Whiteboards.Session
import FusionLocalServer.Whiteboards.Tombstones

/-!
# Changes are applied once

The room knows a request it has had by the client's number for it, and a request that
failed is not sent again: its changes go back to the queue and leave under the next number.
So what keeps a change from going in twice is that it is not sent again once the room has
it, and that the room does not take it once it was sent again (`FirstTime`). In every
session of which this is so, a change goes into the room at most once
(`changes_once`); an answer that is lost is enough for the rest (`retry_overwrites`).
-/

namespace FusionLocalServer.Whiteboards

open Lib Std
open Lib.Json (RawMessage)

/-! ## The numbers of the changes -/

/-- The numbers are those of the changes. -/
def Names (made : List WirePatch) (ns : List Nat) (ps : List WirePatch) : Prop :=
  List.Forall₂ (fun n p => made[n]? = some p) ns ps

namespace Names

variable {made made' : List WirePatch} {ns : List Nat} {ps : List WirePatch}

theorem extend (h : Names made ns ps) (hmade : made <+: made') : Names made' ns ps := by
  refine List.Forall₂.imp (fun n p hn => ?_) h
  obtain ⟨more, rfl⟩ := hmade
  rw [List.getElem?_append_left (List.getElem?_eq_some_iff.mp hn).1, hn]

theorem append {ns' : List Nat} {ps' : List WirePatch} (h : Names made ns ps)
    (h' : Names made ns' ps') : Names made (ns ++ ns') (ps ++ ps') := List.rel_append h h'

theorem lt (h : Names made ns ps) {n : Nat} (hn : n ∈ ns) : n < made.length := by
  induction h with
  | nil => exact (nomatch hn)
  | cons hhead _ ih =>
    rcases List.mem_cons.mp hn with rfl | hn
    · exact (List.getElem?_eq_some_iff.mp hhead).1
    · exact ih hn

theorem exists_number (h : Names made ns ps) {p : WirePatch} (hp : p ∈ ps) :
    ∃ n ∈ ns, made[n]? = some p := by
  induction h with
  | nil => exact (nomatch hp)
  | cons hhead _ ih =>
    rcases List.mem_cons.mp hp with rfl | hp
    · exact ⟨_, List.mem_cons_self, hhead⟩
    · obtain ⟨n, hn, hget⟩ := ih hp
      exact ⟨n, List.mem_cons_of_mem _ hn, hget⟩

end Names

/-- What is put by the patches folded together is put by one of them. -/
theorem put_foldl_squash {id : String} {rec : RawMessage} (ps : List WirePatch) :
    ∀ {out : WirePatch}, (ps.foldl squashStep out).put[id]? = some rec →
      out.put[id]? = some rec ∨ ∃ p ∈ ps, p.put[id]? = some rec := by
  induction ps with
  | nil => exact fun h => .inl h
  | cons p ps ih =>
    intro out h
    rcases ih h with h | ⟨q, hq, hput⟩
    · unfold squashStep at h
      rw [Table.get_eraseAll, ExtTreeMap.getElem?_union] at h
      split at h
      · cases h
      · rcases Option.or_eq_some_iff.mp h with h | ⟨-, h⟩
        · exact .inr ⟨p, List.mem_cons_self, h⟩
        · exact .inl h
    · exact .inr ⟨q, List.mem_cons_of_mem _ hq, hput⟩

theorem put_squash {ps : List WirePatch} {id : String} {rec : RawMessage}
    (h : (squash ps).put[id]? = some rec) : ∃ p ∈ ps, p.put[id]? = some rec := by
  rcases put_foldl_squash ps h with h | h
  · rw [show (({} : WirePatch).put) = (∅ : Records) from rfl, ExtTreeMap.getElem?_empty] at h
    cases h
  · exact h

/-! ## Editors -/

namespace Editor

/-- An editor knows its own name, and which changes it holds. -/
structure Tidy (id : String) (e : Editor) : Prop where
  name : e.client.clientID = id
  distinct : (e.underway ++ e.queued).Nodup
  queue : Names e.made e.queued e.client.queue
  sending : Names e.made e.underway (e.client.sending.getD [])

/-- What an editor keeps: the changes made stay, and the numbers of its requests rise. -/
structure Later (e e' : Editor) : Prop where
  made : e.made <+: e'.made
  seq : e.client.seq ≤ e'.client.seq

variable {id : String} {e : Editor}

theorem Tidy.lt (h : e.Tidy id) {n : Nat} (hn : n ∈ e.underway ++ e.queued) : n < e.made.length := by
  rcases List.mem_append.mp hn with hn | hn
  · exact h.sending.lt hn
  · exact h.queue.lt hn

theorem Later.refl (e : Editor) : e.Later e := ⟨List.prefix_refl _, Int.le_refl _⟩

theorem Later.edit (e : Editor) (diff : RecordsDiff) : e.Later (e.edit diff) := by
  unfold Editor.edit
  split
  · exact ⟨List.prefix_refl _, Int.le_refl _⟩
  · exact ⟨List.prefix_append _ _, Int.le_refl _⟩

theorem Tidy.edit (h : e.Tidy id) (diff : RecordsDiff) : (e.edit diff).Tidy id := by
  unfold Editor.edit
  by_cases hempty : (diffToPatch diff).empty
  · rw [if_pos hempty]
    constructor
    · exact h.name
    · exact h.distinct
    · show Names e.made e.queued (if (diffToPatch diff).empty then e.client.queue else _)
      rw [if_pos hempty]
      exact h.queue
    · exact h.sending
  · rw [if_neg hempty]
    have hlater : e.made <+: e.made ++ [diffToPatch diff] := List.prefix_append _ _
    constructor
    · exact h.name
    · show (e.underway ++ (e.queued ++ [e.made.length])).Nodup
      rw [← List.append_assoc]
      refine List.nodup_append.mpr ⟨h.distinct, List.pairwise_singleton _ _, ?_⟩
      -- the new number is above all of them
      intro n hn m hm
      rw [List.mem_singleton.mp hm]
      exact (h.lt hn).ne
    · show Names _ (e.queued ++ [e.made.length])
        (if (diffToPatch diff).empty then _ else e.client.queue ++ [diffToPatch diff])
      rw [if_neg hempty]
      refine (h.queue.extend hlater).append (.cons ?_ .nil)
      rw [List.getElem?_append_right (Nat.le_refl _), Nat.sub_self]
      rfl
    · exact h.sending.extend hlater

theorem Tidy.failed (h : e.Tidy id) : e.failed.Tidy id where
  name := h.name
  distinct := by
    show ([] ++ (e.underway ++ e.queued)).Nodup
    exact h.distinct
  queue := h.sending.append h.queue
  sending := .nil

theorem Tidy.resync (h : e.Tidy id) (doc : Records) (rev : Int) : (e.resync doc rev).Tidy id where
  name := h.name
  distinct := by
    show (e.underway ++ []).Nodup
    rw [List.append_nil]
    exact (List.nodup_append.mp h.distinct).1
  queue := .nil
  sending := h.sending

theorem Later.answered (e : Editor) (reading : Option (Int × Records))
    (result : Except Err Applied) : e.Later (e.answered reading result) := by
  unfold Editor.answered Client.answered
  cases result with
  | ok a => exact ⟨List.prefix_refl _, Int.le_refl _⟩
  | error err =>
    dsimp only
    split
    · cases reading with
      | none => exact ⟨List.prefix_refl _, Int.le_refl _⟩
      | some copy => exact ⟨List.prefix_refl _, Int.le_refl _⟩
    · exact ⟨List.prefix_refl _, Int.le_refl _⟩

theorem Tidy.answered (h : e.Tidy id) (reading : Option (Int × Records))
    (result : Except Err Applied) : (e.answered reading result).Tidy id := by
  have hqueued : e.queued.Nodup := (List.nodup_append.mp h.distinct).2.1
  unfold Editor.answered Client.answered
  cases result with
  | ok a => exact ⟨h.name, hqueued, h.queue, .nil⟩
  | error err =>
    dsimp only
    by_cases hconflict : err.kind = .conflict
    · rw [if_pos hconflict, if_pos hconflict]
      cases reading with
      | none => exact ⟨h.name, hqueued, h.queue, .nil⟩
      | some copy => exact ⟨h.name, List.nodup_nil, .nil, .nil⟩
    · rw [if_neg hconflict]
      exact h.failed

theorem Later.onFrame (e : Editor) (refused : Bool) (frame : Frame) :
    e.Later { e with client := (e.client.onFrame refused frame).1 } := by
  obtain ⟨records, rev, heq⟩ := e.client.onFrame_eq refused frame
  rw [heq]
  exact ⟨List.prefix_refl _, Int.le_refl _⟩

theorem Tidy.onFrame (h : e.Tidy id) (refused : Bool) (frame : Frame) :
    ({ e with client := (e.client.onFrame refused frame).1 } : Editor).Tidy id := by
  obtain ⟨records, rev, heq⟩ := e.client.onFrame_eq refused frame
  rw [heq]
  exact ⟨h.name, h.distinct, h.queue, h.sending⟩

/-- The editor once all that is queued has left. -/
def flushed (e : Editor) : Editor :=
  { e with client := { e.client with queue := [], sending := some e.client.queue
                                     seq := e.client.seq + 1 }
           queued := [], underway := e.queued }

/-- What sending comes to: nothing leaves, or all that is queued does. -/
theorem send_cases (e : Editor) (id : String) :
    (e.send.2 = none ∧ e.Later e.send.1 ∧ (e.Tidy id → e.send.1.Tidy id)) ∨
    ∃ patch, patch = squash e.client.queue ∧ e.client.sending = none ∧
      e.send.2 = some ⟨{ toDocPatch := patch, clientID := e.client.clientID
                         seq := e.client.seq + 1, baseRev := e.client.appliedRev }, e.queued⟩ ∧
      e.send.1 = e.flushed := by
  by_cases hidle : e.client.sending.isSome ∨ e.client.queue = []
  · have hsend : e.client.send = (e.client, none) := if_pos hidle
    left
    unfold Editor.send
    rw [hsend]
    refine ⟨rfl, ⟨List.prefix_refl _, Int.le_refl _⟩, fun h => ?_⟩
    by_cases hqueue : e.client.queue = []
    · dsimp only
      rw [if_pos hqueue]
      refine ⟨h.name, ?_, ?_, h.sending⟩
      · rw [List.append_nil]
        exact (List.nodup_append.mp h.distinct).1
      · rw [hqueue]
        exact .nil
    · dsimp only
      rw [if_neg hqueue]
      exact h
  · by_cases hempty : (squash e.client.queue).empty
    · have hsend : e.client.send = ({ e.client with queue := [] }, none) := by
        unfold Client.send
        rw [if_neg hidle]
        exact if_pos hempty
      left
      unfold Editor.send
      rw [hsend]
      refine ⟨rfl, ⟨List.prefix_refl _, Int.le_refl _⟩, fun h => ?_⟩
      dsimp only
      rw [if_pos rfl]
      refine ⟨h.name, ?_, .nil, h.sending⟩
      rw [List.append_nil]
      exact (List.nodup_append.mp h.distinct).1
    · have hsend : e.client.send =
          ({ e.client with queue := [], sending := some e.client.queue, seq := e.client.seq + 1 },
            some { toDocPatch := squash e.client.queue, clientID := e.client.clientID
                   seq := e.client.seq + 1, baseRev := e.client.appliedRev }) := by
        unfold Client.send
        rw [if_neg hidle]
        exact if_neg hempty
      right
      have hnone : e.client.sending = none :=
        Option.not_isSome_iff_eq_none.mp fun h => hidle (.inl h)
      refine ⟨_, rfl, hnone, ?_, ?_⟩
      · unfold Editor.send
        rw [hsend]
      · unfold Editor.send flushed
        rw [hsend]

end Editor

/-! ## Sessions -/

namespace Session

/-- What holds of the requests of a session. -/
structure Orderly (s : Session) : Prop where
  tidy : ∀ id, (s.editors id).Tidy id
  newest : ∀ sent ∈ s.sent, sent.req.seq ≤ (s.editors sent.req.clientID).client.seq
  rising : s.sent.Pairwise fun x y => x.req.clientID = y.req.clientID → x.req.seq < y.req.seq
  single : ∀ sent ∈ s.sent, sent.changes.Nodup
  carried : ∀ sent ∈ s.sent, ∃ ps, sent.req.toDocPatch = squash ps ∧
    Names (s.editors sent.req.clientID).made sent.changes ps

/-- What holds of the requests that went in: the room has heard of them, and their changes
are neither in one another nor in later requests. -/
structure Once (s : Session) : Prop where
  sent : ∀ x ∈ s.log, x ∈ s.sent
  heard : ∀ x ∈ s.log, ∃ last, s.room.lastSeq[x.req.clientID]? = some last ∧ x.req.seq ≤ last
  fresh : ∀ x ∈ s.log, ∀ y ∈ s.sent, x.req.clientID = y.req.clientID → x.req.seq < y.req.seq →
    List.Disjoint x.changes y.changes
  apart : s.log.Pairwise fun x y => x.req.clientID = y.req.clientID →
    List.Disjoint x.changes y.changes

/-- The changes of a request that the room takes are sent no more: an editor sends none that
is in the room, and the room takes none that was sent again, and fits what it takes. -/
def FirstTime (s : Session) : Event → Prop
  | .send id => ∀ x ∈ s.log, x.req.clientID = id → List.Disjoint x.changes (s.editors id).queued
  | .take i .. => ∀ x, s.sent[i]? = some x → ¬ s.room.Overfull x.req ∧
      ∀ j y, i < j → s.sent[j]? = some y → x.req.clientID = y.req.clientID →
        List.Disjoint x.changes y.changes
  | _ => True

variable {s t : Session}

/-- What an editor does by itself. -/
theorem Orderly.set (h : Orderly s) {id : String} {e : Editor} (he : e.Tidy id)
    (hlater : (s.editors id).Later e) : Orderly (s.set id e) := by
  have hall : ∀ id', (s.editors id').Later ((s.set id e).editors id') := by
    intro id'
    show (s.editors id').Later (Function.update s.editors id e id')
    rcases eq_or_ne id' id with rfl | hne
    · rw [Function.update_self]
      exact hlater
    · rw [Function.update_of_ne hne]
      exact .refl _
  constructor
  · intro id'
    show (Function.update s.editors id e id').Tidy id'
    rcases eq_or_ne id' id with rfl | hne
    · rw [Function.update_self]
      exact he
    · rw [Function.update_of_ne hne]
      exact h.tidy id'
  · intro sent hsent
    exact Int.le_trans (h.newest sent hsent) (hall _).seq
  · exact h.rising
  · exact h.single
  · intro sent hsent
    obtain ⟨ps, hpatch, hnames⟩ := h.carried sent hsent
    exact ⟨ps, hpatch, hnames.extend (hall _).made⟩

/-- A request leaves with all that is queued. -/
theorem Orderly.sends (h : Orderly s) (id : String) : Orderly (s.sends id) := by
  unfold Session.sends
  have htidy := h.tidy id
  rcases (s.editors id).send_cases id with ⟨hnone, hlater, hkeeps⟩ |
    ⟨patch, hpatch, hidle, hsent, heditor⟩
  · rw [hnone, Option.toList_none, List.append_nil]
    exact h.set (hkeeps htidy) hlater
  · rw [hsent, heditor]
    have he : (s.editors id).flushed.Tidy id := by
      refine ⟨htidy.name, ?_, .nil, htidy.queue⟩
      show ((s.editors id).queued ++ []).Nodup
      rw [List.append_nil]
      exact (List.nodup_append.mp htidy.distinct).2.1
    have hlater : (s.editors id).Later (s.editors id).flushed := by
      refine ⟨List.prefix_refl _, ?_⟩
      show _ ≤ (s.editors id).client.seq + 1
      omega
    have hset := h.set he hlater
    have hself : (s.set id (s.editors id).flushed).editors (s.editors id).client.clientID =
        (s.editors id).flushed := by
      rw [htidy.name]
      exact Function.update_self ..
    constructor
    · exact hset.tidy
    · intro sent hmem
      rcases List.mem_append.mp hmem with hmem | hmem
      · exact hset.newest sent hmem
      · cases List.mem_singleton.mp hmem
        show _ ≤ ((s.set id (s.editors id).flushed).editors
          (s.editors id).client.clientID).client.seq
        rw [hself]
        exact Int.le_refl _
    · refine List.pairwise_append.mpr ⟨h.rising, List.pairwise_singleton _ _, ?_⟩
      intro x hx y hy hsame
      cases List.mem_singleton.mp hy
      have hle : x.req.seq ≤ (s.editors id).client.seq := by
        have hname : x.req.clientID = id := hsame.trans htidy.name
        rw [← hname]
        exact h.newest x hx
      show x.req.seq < (s.editors id).client.seq + 1
      omega
    · intro sent hmem
      rcases List.mem_append.mp hmem with hmem | hmem
      · exact h.single sent hmem
      · cases List.mem_singleton.mp hmem
        exact (List.nodup_append.mp htidy.distinct).2.1
    · intro sent hmem
      rcases List.mem_append.mp hmem with hmem | hmem
      · exact hset.carried sent hmem
      · cases List.mem_singleton.mp hmem
        refine ⟨(s.editors id).client.queue, hpatch, ?_⟩
        show Names ((s.set id (s.editors id).flushed).editors
          (s.editors id).client.clientID).made _ _
        rw [hself]
        exact htidy.queue

theorem Orderly.step (h : Orderly s) {e : Event} (hstep : Step s e t) : Orderly t := by
  cases hstep with
  | edit => exact h.set ((h.tidy _).edit _) (.edit _ _)
  | send => exact h.sends _
  | take => exact ⟨h.tidy, h.newest, h.rising, h.single, h.carried⟩
  | again => exact ⟨h.tidy, h.newest, h.rising, h.single, h.carried⟩
  | refuse => exact ⟨h.tidy, h.newest, h.rising, h.single, h.carried⟩
  | overfill => exact ⟨h.tidy, h.newest, h.rising, h.single, h.carried⟩
  | answer => exact h.set ((h.tidy _).answered _ _) (.answered _ _ _)
  | lose => exact h.set (h.tidy _).failed ⟨List.prefix_refl _, Int.le_refl _⟩
  | deliver => exact h.set ((h.tidy _).onFrame _ _) (.onFrame _ _ _)
  | serve => exact ⟨h.tidy, h.newest, h.rising, h.single, h.carried⟩
  | load => exact h.set ((h.tidy _).resync _ _) ⟨List.prefix_refl _, Int.le_refl _⟩
  | replace => exact ⟨h.tidy, h.newest, h.rising, h.single, h.carried⟩

/-! ## What went in -/

/-- The room has heard of a request it took. -/
theorem lastSeq_of_accepts {order : Order} {r r' : Room} {req : DocPatchRequest} {by' : UserRef}
    {now : Time} {a : Applied} (h : r.Accepts order req by' now a r') :
    r'.lastSeq = r.lastSeq.insert req.clientID req.seq := by
  have happly := h.2
  rw [Room.apply_admitted h.admitted] at happly
  have hfold : (r.fold req).room.lastSeq = r.lastSeq :=
    Room.of_frame Room.lastSeq (fun _ => rfl) (Room.folded r req).frame
  split at happly
  · cases happly
  · cases happly
    unfold Room.settle
    dsimp only
    split
    · rw [hfold]
    · rw [Room.of_trimTombs Room.lastSeq fun _ _ => rfl, ← hfold]
      rfl

/-- A request with a higher number was sent later. -/
theorem Orderly.index_lt (h : Orderly s) {i j : Nat} {x y : Sent} (hx : s.sent[i]? = some x)
    (hy : s.sent[j]? = some y) (hsame : x.req.clientID = y.req.clientID)
    (hlt : x.req.seq < y.req.seq) : i < j := by
  obtain ⟨hi, rfl⟩ := List.getElem?_eq_some_iff.mp hx
  obtain ⟨hj, rfl⟩ := List.getElem?_eq_some_iff.mp hy
  rcases Nat.lt_trichotomy i j with hij | rfl | hji
  · exact hij
  · exact absurd hlt (Int.lt_irrefl _)
  · have hrise := List.pairwise_iff_getElem.mp h.rising j i hj hi hji hsame.symm
    omega

/-- A request is taken in. -/
theorem Once.takes (h : Once s) (ho : Orderly s) {i : Nat} {sent : Sent}
    (hsent : s.sent[i]? = some sent) {order : Order} {by' : UserRef} {now : Time} {a : Applied}
    {room : Room} (hacc : s.room.Accepts order sent.req by' now a room)
    (hok : FirstTime s (.take i order by' now)) : Once (s.takes sent a room) := by
  have hmem : sent ∈ s.sent := List.mem_of_getElem? hsent
  have hlast := lastSeq_of_accepts hacc
  -- the room had heard of earlier requests of this client only
  have hnew : ∀ x ∈ s.log, x.req.clientID = sent.req.clientID → x.req.seq < sent.req.seq := by
    intro x hx hsame
    obtain ⟨last, hget, hle⟩ := h.heard x hx
    rw [hsame] at hget
    have hlt : last < sent.req.seq := Int.not_le.mp fun hle => hacc.1 ⟨last, hget, hle⟩
    omega
  constructor
  · intro x hx
    rcases List.mem_append.mp hx with hx | hx
    · exact h.sent x hx
    · cases List.mem_singleton.mp hx
      exact hmem
  · intro x hx
    show ∃ last, room.lastSeq[x.req.clientID]? = some last ∧ _
    rw [hlast, Table.get_insert]
    rcases List.mem_append.mp hx with hx | hx
    · by_cases hsame : sent.req.clientID = x.req.clientID
      · rw [if_pos hsame]
        exact ⟨_, rfl, (hnew x hx hsame.symm).le⟩
      · rw [if_neg hsame]
        exact h.heard x hx
    · cases List.mem_singleton.mp hx
      rw [if_pos rfl]
      exact ⟨_, rfl, Int.le_refl _⟩
  · intro x hx y hy hsame hlt
    rcases List.mem_append.mp hx with hx | hx
    · exact h.fresh x hx y hy hsame hlt
    · cases List.mem_singleton.mp hx
      obtain ⟨j, hj⟩ := List.mem_iff_getElem?.mp hy
      exact (hok sent hsent).2 j y (ho.index_lt hsent hj hsame hlt) hj hsame
  · refine List.pairwise_append.mpr ⟨h.apart, List.pairwise_singleton _ _, ?_⟩
    intro x hx y hy hsame
    cases List.mem_singleton.mp hy
    exact h.fresh x hx sent hmem hsame (hnew x hx hsame)

/-- A request leaves, without a change that went in. -/
theorem Once.sends (h : Once s) (ho : Orderly s) {id : String} (hok : FirstTime s (.send id)) :
    Once (s.sends id) := by
  unfold Session.sends
  rcases (s.editors id).send_cases id with ⟨hnone, -, -⟩ | ⟨patch, -, -, hsent, heditor⟩
  · rw [hnone, Option.toList_none, List.append_nil]
    exact ⟨h.sent, h.heard, h.fresh, h.apart⟩
  · rw [hsent]
    constructor
    · intro x hx
      exact List.mem_append_left _ (h.sent x hx)
    · exact h.heard
    · intro x hx y hy hsame hlt
      rcases List.mem_append.mp hy with hy | hy
      · exact h.fresh x hx y hy hsame hlt
      · cases List.mem_singleton.mp hy
        exact hok x hx (hsame.trans (ho.tidy id).name)
    · exact h.apart

theorem Once.step (h : Once s) (ho : Orderly s) {e : Event} (hok : FirstTime s e)
    (hstep : Step s e t) : Once t := by
  cases hstep with
  | send => exact h.sends ho hok
  | take hsent hacc => exact h.takes ho hsent hacc hok
  | overfill hsent _ hfull => exact absurd hfull (hok _ hsent).1
  | @replace doc by' now rev room hreplace =>
    have hlast : room.lastSeq = s.room.lastSeq := by
      unfold Room.replace at hreplace
      split at hreplace
      · cases hreplace
      · cases hreplace
        rfl
    refine ⟨h.sent, ?_, h.fresh, h.apart⟩
    show ∀ x ∈ s.log, ∃ last, room.lastSeq[x.req.clientID]? = some last ∧ _
    rw [hlast]
    exact h.heard
  | edit => exact ⟨h.sent, h.heard, h.fresh, h.apart⟩
  | again => exact ⟨h.sent, h.heard, h.fresh, h.apart⟩
  | refuse => exact ⟨h.sent, h.heard, h.fresh, h.apart⟩
  | answer => exact ⟨h.sent, h.heard, h.fresh, h.apart⟩
  | lose => exact ⟨h.sent, h.heard, h.fresh, h.apart⟩
  | deliver => exact ⟨h.sent, h.heard, h.fresh, h.apart⟩
  | serve => exact ⟨h.sent, h.heard, h.fresh, h.apart⟩
  | load => exact ⟨h.sent, h.heard, h.fresh, h.apart⟩

theorem Orderly.start (room : Room) : Orderly (start room) where
  tidy _ := ⟨rfl, List.nodup_nil, .nil, .nil⟩
  newest _ h := (nomatch h)
  rising := .nil
  single _ h := (nomatch h)
  carried _ h := (nomatch h)

theorem Once.start (room : Room) : Once (start room) :=
  ⟨fun _ h => (nomatch h), fun _ h => (nomatch h), fun _ h => (nomatch h), .nil⟩

/-- **A change goes into the room at most once**, whatever is lost, comes late or comes
twice, as long as no change is sent again that the room takes. What a request writes is
what one of its changes wrote. -/
theorem changes_once {room : Room} {events : List Event}
    (hrun : Run Step FirstTime (start room) events t) :
    (t.log.flatMap Sent.marks).Nodup ∧
      ∀ x ∈ t.log, ∀ (id : String) (rec : RawMessage), x.req.put[id]? = some rec →
        ∃ n ∈ x.changes, ∃ p : WirePatch, (t.editors x.req.clientID).made[n]? = some p ∧
          p.put[id]? = some rec := by
  obtain ⟨ho, h⟩ : Orderly t ∧ Once t :=
    hrun.invariant (P := fun s => Orderly s ∧ Once s) ⟨.start room, .start room⟩
      fun _ _ _ h hok hstep => ⟨h.1.step hstep, h.2.step h.1 hok hstep⟩
  constructor
  · refine List.nodup_flatMap.mpr ⟨?_, h.apart.imp ?_⟩
    · intro x hx
      exact (ho.single x (h.sent x hx)).map fun _ _ heq => (Prod.mk.inj heq).2
    · intro x y hapart mark hmark hmark'
      obtain ⟨n, hn, rfl⟩ := List.mem_map.mp hmark
      obtain ⟨m, hm, heq⟩ := List.mem_map.mp hmark'
      obtain ⟨hsame, rfl⟩ := Prod.mk.inj heq
      exact hapart hsame.symm hn hm
  · intro x hx id rec hput
    obtain ⟨ps, hpatch, hnames⟩ := ho.carried x (h.sent x hx)
    rw [hpatch] at hput
    obtain ⟨p, hp, hput⟩ := put_squash hput
    obtain ⟨n, hn, hmade⟩ := hnames.exists_number hp
    exact ⟨n, hn, p, hmade, hput⟩

/-! ### A shape drawn by two -/

/-- The shape becomes this record. -/
def drawing (rec : RawMessage) : RecordsDiff := { added := (∅ : Records).insert "shape:x" rec }

/-- The request that carries the first change of an editor. -/
def carrying (clientID : String) (seq : Int) (rec : RawMessage) : Sent where
  req := { clientID, seq, baseRev := 0, put := (∅ : Records).insert "shape:x" rec }
  changes := [0]

def edits (s : Session) (id : String) (diff : RecordsDiff) : Session :=
  s.set id ((s.editors id).edit diff)

/-- The request is taken, and the answer given. -/
def gets (s : Session) (sent : Sent) (rev : Int) : Session :=
  s.takes sent { rev, patch := sent.req.toDocPatch } (s.room.apply .sorted sent.req default 0).1

def blankSession : Session := (start Room.empty).edits "a" (drawing Room.blank)

/-- The first editor has drawn the shape, and its answer is lost. -/
def lostAnswer : Session :=
  let s := (blankSession.sends "a").gets (carrying "a" 1 Room.blank) 1
  s.set "a" (s.editors "a").failed

/-- The other one has drawn it anew. -/
def redrawn : Session :=
  ((lostAnswer.edits "b" (drawing ['1'])).sends "b").gets (carrying "b" 1 ['1']) 2

/-- The first one has sent again. -/
def overwritten : Session := (redrawn.sends "a").gets (carrying "a" 2 Room.blank) 3

example : redrawn.room.rev = 2 ∧ overwritten.room.rev = 3 := by
  decide +kernel

theorem step_gets {i : Nat} {sent : Sent} {rev : Int} (hsent : s.sent[i]? = some sent)
    (hretry : ¬ s.room.Retried sent.req)
    (hok : (s.room.apply .sorted sent.req default 0).2 =
      .ok { rev, patch := sent.req.toDocPatch }) :
    Step s (.take i .sorted default 0) (s.gets sent rev) :=
  .take hsent ⟨hretry, Prod.ext rfl hok⟩

theorem step_blank : Step (start Room.empty) (.edit "a" (drawing Room.blank)) blankSession := .edit

theorem sent_blank : (blankSession.sends "a").sent = [carrying "a" 1 Room.blank] := by
  decide +kernel

theorem step_drawn : Step (blankSession.sends "a") (.take 0 .sorted default 0)
    ((blankSession.sends "a").gets (carrying "a" 1 Room.blank) 1) :=
  step_gets (by rw [sent_blank]; rfl) (by decide +kernel) (by decide +kernel)

/-- One shape, drawn and sent. -/
theorem changes_once_drawing :
    (((blankSession.sends "a").gets (carrying "a" 1 Room.blank) 1).log.flatMap
      Sent.marks).Nodup := by
  have hedit : FirstTime (start Room.empty) (.edit "a" (drawing Room.blank)) := trivial
  have hsend : FirstTime blankSession (.send "a") := fun x hx =>
    nomatch (show x ∈ ([] : List Sent) from hx)
  have htake : FirstTime (blankSession.sends "a") (.take 0 .sorted default 0) := by
    intro x hx
    rw [sent_blank] at hx
    cases hx
    constructor
    · exact fun hfull => absurd hfull.2.1 (by decide +kernel)
    · intro j y hj hy
      rw [sent_blank, List.getElem?_eq_none hj] at hy
      cases hy
  exact (changes_once (Run.cons hedit step_blank (Run.cons hsend .send
    (Run.single htake step_drawn)))).1

/-- The answer of the first one is lost and its change goes in again, over what the other one
drew in between. -/
theorem retry_overwrites : ∃ events, Run Step always (start Room.empty) events overwritten ∧
    overwritten.log = [carrying "a" 1 Room.blank, carrying "b" 1 ['1'], carrying "a" 2 Room.blank] ∧
    ¬ (overwritten.log.flatMap Sent.marks).Nodup ∧
    redrawn.room.records["shape:x"]? = some ['1'] ∧
    overwritten.room.records["shape:x"]? = some Room.blank := by
  have hlose : Step ((blankSession.sends "a").gets (carrying "a" 1 Room.blank) 1) (.lose "a")
      lostAnswer := .lose (by decide +kernel)
  have hedit : Step lostAnswer (.edit "b" (drawing ['1'])) (lostAnswer.edits "b" (drawing ['1'])) :=
    .edit
  have hredrawn : Step ((lostAnswer.edits "b" (drawing ['1'])).sends "b") (.take 1 .sorted default 0)
      redrawn := step_gets (by decide +kernel) (by decide +kernel) (by decide +kernel)
  have hagain : Step (redrawn.sends "a") (.take 2 .sorted default 0) overwritten :=
    step_gets (by decide +kernel) (by decide +kernel) (by decide +kernel)
  have hrun : Run Step always (start Room.empty) _ overwritten :=
    .cons trivial step_blank (.cons trivial .send (.cons trivial step_drawn
      (.cons trivial hlose (.cons trivial hedit (.cons trivial .send
        (.cons trivial hredrawn (.cons trivial .send (.single trivial hagain))))))))
  exact ⟨_, hrun, by decide +kernel, by decide +kernel, by decide +kernel, by decide +kernel⟩

end Session

end FusionLocalServer.Whiteboards
