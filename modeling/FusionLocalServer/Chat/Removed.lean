import Mathlib.Data.List.InsertIdx
import Mathlib.Data.List.Nodup
import FusionLocalServer.Chat.Audience
import FusionLocalServer.Lib.Search
import FusionLocalServer.Sse.Provenance

/-!
# What a removed member is shown

The list of members that a frame travels with is from when its handler read the channel. A member
who is removed between that and the store operation is on the list, and sees a text that was
stored after the removal. Where that does not come to pass, a removed member sees no text from
after the removal, but as a moderator or after being added back.
-/

namespace FusionLocalServer.Chat

open Lib

namespace Audience

/-! ## Lists of members -/

def ids (ch : ChannelDef) : List String := ch.members.map (·.userID)

theorem firstMembers_nodup (createdBy : String) (memberIDs : List String) (at_ : Time) :
    ((Project.firstMembers createdBy memberIDs at_).map (·.userID)).Nodup := by
  have hfold : ∀ (memberIDs : List String) (members : List ChannelMember),
      (members.map (·.userID)).Nodup → ((memberIDs.foldl (fun members id =>
        if id = "" ∨ id = createdBy ∨ id ∈ members.map (·.userID) then members
        else members ++ [{ userID := id, role := "member", addedBy := createdBy, addedAt := at_ }])
        members).map (·.userID)).Nodup := by
    intro memberIDs
    induction memberIDs with
    | nil => exact fun _ h => h
    | cons id rest ih =>
      intro members h
      refine ih _ ?_
      dsimp only
      split
      · exact h
      · next hnew =>
        push Not at hnew
        rw [List.map_append, List.nodup_append]
        refine ⟨h, by simp, fun a ha b hb hab => ?_⟩
        obtain rfl := List.mem_singleton.mp hb
        exact hnew.2.2 (hab ▸ ha)
  exact hfold memberIDs _ (by simp)

/-- What `AddChannelMember` leaves: the member is there, and nobody new besides. -/
theorem addChannelMember_ids {env : MetaEnv} {userID addedBy : String} {ch : ChannelDef}
    {result : Option (ChannelDef → ChannelDef)}
    (h : Project.addChannelMember env userID addedBy default ch = .ok result)
    (hnodup : (ids ch).Nodup) :
    ch.isPrivate = true ∧ (ids ((result.getD id) ch)).Nodup ∧
      ((result.getD id) ch).isPrivate = ch.isPrivate ∧ ((result.getD id) ch).id = ch.id ∧
      ∀ u ∈ ids ((result.getD id) ch), u ∈ ids ch ∨ u = userID := by
  unfold Project.addChannelMember Project.checkPrivate at h
  by_cases hprivate : ch.isPrivate = true
  · simp only [hprivate, if_true] at h
    by_cases hthere : ch.members.any (fun m => m.userID = userID) = true
    · simp only [hthere, if_true] at h
      cases h
      exact ⟨hprivate, hnodup, rfl, rfl, fun u hu => .inl hu⟩
    · simp only [hthere] at h
      cases h
      have hnew : userID ∉ ids ch := by
        intro hmem
        obtain ⟨m, hm, hid⟩ := List.mem_map.mp hmem
        exact hthere (List.any_eq_true.mpr ⟨m, hm, by simpa using hid⟩)
      refine ⟨hprivate, ?_, rfl, rfl, fun u hu => ?_⟩
      · show ((ch.members ++ [_]).map ChannelMember.userID).Nodup
        rw [List.map_append, List.nodup_append]
        refine ⟨hnodup, by simp, fun a ha b hb hab => ?_⟩
        obtain rfl := List.mem_singleton.mp hb
        exact hnew (hab ▸ ha)
      · change u ∈ (ch.members ++ [_]).map ChannelMember.userID at hu
        rw [List.map_append, List.mem_append] at hu
        exact hu.imp_right fun h => List.mem_singleton.mp h
  · simp only [hprivate, Bool.false_eq_true, if_false] at h
    cases h

/-- What `RemoveChannelMember` leaves: the others. -/
theorem removeChannelMember_ids {userID : String} {ch : ChannelDef}
    {result : Option (ChannelDef → ChannelDef)}
    (h : Project.removeChannelMember userID default ch = .ok result) (hnodup : (ids ch).Nodup) :
    ch.isPrivate = true ∧ (ids ((result.getD id) ch)).Nodup ∧
      ((result.getD id) ch).isPrivate = ch.isPrivate ∧ ((result.getD id) ch).id = ch.id ∧
      ∀ u ∈ ids ((result.getD id) ch), u ∈ ids ch ∧ u ≠ userID := by
  unfold Project.removeChannelMember Project.checkPrivate at h
  by_cases hprivate : ch.isPrivate = true
  · simp only [hprivate, if_true] at h
    cases hfind : ch.members.findIdx? fun m => m.userID = userID with
    | none =>
      simp only [hfind] at h
      cases h
      refine ⟨hprivate, hnodup, rfl, rfl, fun u hu => ⟨hu, ?_⟩⟩
      rintro rfl
      obtain ⟨m, hm, hid⟩ := List.mem_map.mp hu
      have hno := List.findIdx?_eq_none_iff.mp hfind m hm
      simp [hid] at hno
    | some i =>
      simp only [hfind] at h
      cases h
      obtain ⟨hlt, hi, -⟩ := List.findIdx?_eq_some_iff_getElem.mp hfind
      have hids : ids { ch with members := ch.members.eraseIdx i } = (ids ch).eraseIdx i := by
        simp only [ids, List.eraseIdx_map]
      refine ⟨hprivate, ?_, rfl, rfl, fun u hu => ?_⟩
      · show (ids { ch with members := ch.members.eraseIdx i }).Nodup
        rw [hids]
        exact hnodup.eraseIdx i
      · change u ∈ ids { ch with members := ch.members.eraseIdx i } at hu
        rw [hids] at hu
        refine ⟨List.mem_of_mem_eraseIdx hu, ?_⟩
        rintro rfl
        have hi' : i < (ids ch).length := by simpa [ids] using hlt
        have hget : (ids ch)[i] = u := by simpa [ids] using hi
        rw [← hnodup.erase_getElem i hi', hget] at hu
        exact hnodup.not_mem_erase hu
  · simp only [hprivate, Bool.false_eq_true, if_false] at h
    cases h

namespace World

/-! ## Removals, and who is back -/

def RemovedAt (w : World) (id userID : String) (r : Nat) : Prop :=
  { channelID := id, userID, added := false, step := r } ∈ w.changes

/-- Added after the removal. -/
def Back (w : World) (id userID : String) (r : Nat) : Prop :=
  ∃ x ∈ w.changes, x.channelID = id ∧ x.userID = userID ∧ x.added = true ∧ r < x.step

/-- The lists of members go by the changes. -/
structure StoreOK (w : World) : Prop where
  named : ∀ id ch, w.channels id = some ch → ch.id = id
  nodup : ∀ id ch, w.channels id = some ch → (ids ch).Nodup
  earlier : ∀ x ∈ w.changes, x.step < w.now
  isPrivate : ∀ x ∈ w.changes, ∃ ch, w.channels x.channelID = some ch ∧ ch.isPrivate = true
  members : ∀ id ch u r, w.channels id = some ch → u ∈ ids ch → w.RemovedAt id u r → w.Back id u r

/-- The frames of a text that are for nobody who was removed ahead of it, and is not back. -/
def Fit (w : World) (p : Payload) (vis : Vis) : Prop :=
  ∀ t, p.text = some t → vis.extraUserIDs = [] ∧ t.changed ≤ w.now ∧
    (∃ ch, w.channels t.channelID = some ch ∧ vis.isPrivate = ch.isPrivate ∧
      vis.channel.isPrivate = ch.isPrivate) ∧
    ∀ u ∈ ids vis.channel, ∀ r, w.RemovedAt t.channelID u r → r < t.changed →
      w.Back t.channelID u r

structure CallOK (w : World) (call : Call) : Prop where
  known : ∃ ch, w.channels call.channel.id = some ch ∧ call.channel.isPrivate = ch.isPrivate
  early : call.readAt ≤ w.now
  members : ∀ u ∈ ids call.channel, ∀ r, w.RemovedAt call.channel.id u r → r < call.readAt →
    w.Back call.channel.id u r
  stored : ∀ p vis, call.phase = .stored p vis → w.Fit p vis

/-- A frame that was written is of no text from after the reader's removal, unless the reader is
a moderator or was added back. -/
def Seen (w : World) (x : Written) : Prop :=
  ∀ t, x.payload.text = some t → t.changed ≤ w.now ∧
    ∀ r, w.RemovedAt t.channelID x.id.userID r → r < t.changed →
      x.moderator = true ∨ w.Back t.channelID x.id.userID r

structure Inv (w : World) : Prop where
  store : w.StoreOK
  texts : ∀ id seq, w.textAt id seq ≤ w.now
  calls : ∀ call ∈ w.calls, w.CallOK call
  hub : Sse.Holds w.Fit w.hub
  streams : ∀ s ∈ w.streams, ∀ f ∈ s.replay, w.Fit f.data f.vis
  written : ∀ x ∈ w.written, w.Seen x

/-! ## Going on -/

/-- What is new of the changes is from now on. -/
structure Grows (w w' : World) : Prop where
  fresh : ∀ x ∈ w'.changes, x ∈ w.changes ∨ w.now ≤ x.step
  kept : ∀ x ∈ w.changes, x ∈ w'.changes
  channels : ∀ id ch, w.channels id = some ch →
    ∃ ch', w'.channels id = some ch' ∧ ch'.isPrivate = ch.isPrivate
  now : w.now ≤ w'.now

variable {w w' : World}

theorem Grows.back (h : Grows w w') {id u : String} {r : Nat} (hb : w.Back id u r) :
    w'.Back id u r := by
  obtain ⟨x, hx, hback⟩ := hb
  exact ⟨x, h.kept x hx, hback⟩

theorem Grows.removed (h : Grows w w') {id u : String} {r : Nat} (hr : w'.RemovedAt id u r)
    (hearly : r < w.now) : w.RemovedAt id u r :=
  (h.fresh _ hr).resolve_right (Nat.not_le.mpr hearly)

theorem Grows.fit (h : Grows w w') {p : Payload} {vis : Vis} (hf : w.Fit p vis) :
    w'.Fit p vis := by
  intro t ht
  obtain ⟨hextra, hchanged, ⟨ch, hch, hprivate, hlist⟩, hback⟩ := hf t ht
  obtain ⟨ch', hch', hsame⟩ := h.channels _ _ hch
  refine ⟨hextra, Nat.le_trans hchanged h.now,
    ⟨ch', hch', hprivate.trans hsame.symm, hlist.trans hsame.symm⟩, ?_⟩
  intro u hu r hr hlt
  exact h.back (hback u hu r (h.removed hr (Nat.lt_of_lt_of_le hlt hchanged)) hlt)

theorem Grows.callOK (h : Grows w w') {call : Call} (hc : w.CallOK call) : w'.CallOK call := by
  obtain ⟨ch, hch, hprivate⟩ := hc.known
  obtain ⟨ch', hch', hprivate'⟩ := h.channels _ _ hch
  refine ⟨⟨ch', hch', hprivate.trans hprivate'.symm⟩, Nat.le_trans hc.early h.now, ?_,
    fun p vis hp => h.fit (hc.stored p vis hp)⟩
  intro u hu r hr hlt
  exact h.back (hc.members u hu r (h.removed hr (Nat.lt_of_lt_of_le hlt hc.early)) hlt)

theorem Grows.seen (h : Grows w w') {x : Written} (hx : w.Seen x) : w'.Seen x := by
  intro t ht
  obtain ⟨hchanged, hback⟩ := hx t ht
  refine ⟨Nat.le_trans hchanged h.now, fun r hr hlt => ?_⟩
  exact (hback r (h.removed hr (Nat.lt_of_lt_of_le hlt hchanged)) hlt).imp_right h.back

/-- A step whose new calls, frames and writes are in order ahead of it. -/
theorem Inv.next (hg : Grows w w') (hstore : w'.StoreOK)
    (htexts : ∀ id seq, w'.textAt id seq ≤ w.now) (hcalls : ∀ call ∈ w'.calls, w.CallOK call)
    (hhub : Sse.Holds w.Fit w'.hub)
    (hstreams : ∀ s ∈ w'.streams, ∀ f ∈ s.replay, w.Fit f.data f.vis)
    (hwritten : ∀ x ∈ w'.written, w.Seen x) : w'.Inv where
  store := hstore
  texts id seq := Nat.le_trans (htexts id seq) hg.now
  calls call hcall := hg.callOK (hcalls call hcall)
  hub := hhub.mono fun _ _ => hg.fit
  streams s hs f hf := hg.fit (hstreams s hs f hf)
  written x hx := hg.seen (hwritten x hx)

/-- The channels and their changes are as they were. -/
theorem grows_same (hchannels : w'.channels = w.channels) (hchanges : w'.changes = w.changes)
    (hnow : w'.now = w.now + 1) : Grows w w' :=
  ⟨fun _ hx => .inl (hchanges ▸ hx), fun _ hx => hchanges ▸ hx,
    fun _ ch hch => ⟨ch, hchannels ▸ hch, rfl⟩, by omega⟩

theorem StoreOK.same (h : w.StoreOK) (hchannels : w'.channels = w.channels)
    (hchanges : w'.changes = w.changes) (hnow : w'.now = w.now + 1) : w'.StoreOK := by
  obtain ⟨named, nodup, earlier, isPrivate, members⟩ := h
  refine ⟨hchannels ▸ named, hchannels ▸ nodup, fun x hx => ?_, ?_, ?_⟩
  · have := earlier x (hchanges ▸ hx)
    omega
  · rw [hchannels, hchanges]
    exact isPrivate
  · unfold RemovedAt Back
    rw [hchannels, hchanges]
    exact members

/-- The steps that leave the channels and their changes. -/
theorem Inv.quiet (h : Inv w) (hchannels : w'.channels = w.channels)
    (hchanges : w'.changes = w.changes) (hnow : w'.now = w.now + 1)
    (htexts : ∀ id seq, w'.textAt id seq ≤ w.now) (hcalls : ∀ call ∈ w'.calls, w.CallOK call)
    (hhub : Sse.Holds w.Fit w'.hub)
    (hstreams : ∀ s ∈ w'.streams, ∀ f ∈ s.replay, w.Fit f.data f.vis)
    (hwritten : ∀ x ∈ w'.written, w.Seen x) : w'.Inv :=
  .next (grows_same hchannels hchanges hnow) (h.store.same hchannels hchanges hnow) htexts hcalls
    hhub hstreams hwritten

/-! ## The members change -/

/-- One channel goes to another value, under a change that says who may be new in it. -/
theorem StoreOK.change (h : w.StoreOK) {id userID : String} {added : Bool} {ch ch' : ChannelDef}
    (hch : w.channels id = some ch) (hprivate : ch.isPrivate = true)
    (hprivate' : ch'.isPrivate = ch.isPrivate) (hid : ch'.id = ch.id) (hnodup : (ids ch').Nodup)
    (hmembers : ∀ u ∈ ids ch', (u ∈ ids ch ∧ (added = false → u ≠ userID)) ∨
      (added = true ∧ u = userID))
    (hchannels : w'.channels = Function.update w.channels id (some ch'))
    (hchanges : w'.changes = { channelID := id, userID, added, step := w.now } :: w.changes)
    (hnow : w'.now = w.now + 1) : w'.StoreOK ∧ Grows w w' := by
  have hother : ∀ {id'}, id' ≠ id → w'.channels id' = w.channels id' := fun hne => by
    rw [hchannels, Function.update_of_ne hne]
  have hself : w'.channels id = some ch' := by rw [hchannels, Function.update_self]
  have hgrows : Grows w w' := by
    refine ⟨fun x hx => ?_, fun x hx => ?_, fun id' c hc => ?_, by omega⟩
    · rw [hchanges] at hx
      rcases List.mem_cons.mp hx with rfl | hx
      · exact .inr (Nat.le_refl _)
      · exact .inl hx
    · rw [hchanges]
      exact List.mem_cons_of_mem _ hx
    · by_cases hne : id' = id
      · subst hne
        cases hch.symm.trans hc
        exact ⟨ch', hself, hprivate'⟩
      · exact ⟨c, (hother hne).trans hc, rfl⟩
  refine ⟨⟨fun id' c hc => ?_, fun id' c hc => ?_, fun x hx => ?_, fun x hx => ?_,
    fun id' c u r hc hu hr => ?_⟩, hgrows⟩
  · by_cases hne : id' = id
    · subst hne
      cases hself.symm.trans hc
      exact hid.trans (h.named _ _ hch)
    · exact h.named id' c (hother hne ▸ hc)
  · by_cases hne : id' = id
    · subst hne
      cases hself.symm.trans hc
      exact hnodup
    · exact h.nodup id' c (hother hne ▸ hc)
  · rw [hchanges] at hx
    rcases List.mem_cons.mp hx with rfl | hx
    · show w.now < w'.now
      omega
    · have := h.earlier x hx
      omega
  · rw [hchanges] at hx
    rcases List.mem_cons.mp hx with rfl | hx
    · exact ⟨ch', hself, hprivate'.trans hprivate⟩
    · obtain ⟨c, hc, hcp⟩ := h.isPrivate x hx
      obtain ⟨c', hc', hcp'⟩ := hgrows.channels _ _ hc
      exact ⟨c', hc', hcp'.trans hcp⟩
  · by_cases hne : id' = id
    · subst hne
      cases hself.symm.trans hc
      unfold RemovedAt at hr
      rw [hchanges] at hr
      rcases hmembers u hu with ⟨hold, hkept⟩ | ⟨rfl, rfl⟩
      · rcases List.mem_cons.mp hr with heq | hr
        · -- the one who is removed is no member
          obtain ⟨-, rfl, rfl, -⟩ := Change.mk.inj heq
          exact absurd rfl (hkept rfl)
        · exact hgrows.back (h.members _ _ u r hch hold hr)
      · rcases List.mem_cons.mp hr with heq | hr
        · exact (nomatch (Change.mk.inj heq).2.2.1)
        · exact ⟨_, by rw [hchanges]; exact List.mem_cons_self, rfl, rfl, rfl, h.earlier _ hr⟩
    · have hr' : w.RemovedAt id' u r := by
        unfold RemovedAt at hr
        rw [hchanges] at hr
        rcases List.mem_cons.mp hr with heq | hr
        · exact absurd (Change.mk.inj heq).1 hne
        · exact hr
      exact hgrows.back (h.members id' c u r (hother hne ▸ hc) hu hr')

/-! ## The steps -/

/-- No message operation goes to the store after a member on its list was removed, who is not
back, where the text it publishes is younger than the removal. -/
def Unhindered (w : World) : Event → Prop
  | .storeMessage n _ =>
    match w.calls[n]? with
    | some call =>
      match call.task with
      | .message op => ∀ x ∈ w.changes, x.added = false → x.channelID = call.channel.id →
          x.userID ∈ ids call.channel → call.readAt ≤ x.step →
          x.step < w.changed call.channel.id op → w.Back x.channelID x.userID x.step
      | _ => True
    | none => True
  | _ => True

instance (id userID : String) (r : Nat) : Decidable (w.RemovedAt id userID r) :=
  inferInstanceAs (Decidable (_ ∈ w.changes))

instance (id userID : String) (r : Nat) : Decidable (w.Back id userID r) :=
  inferInstanceAs (Decidable (∃ x ∈ w.changes, _))

instance (w : World) (e : Event) : Decidable (w.Unhindered e) := by
  unfold Unhindered
  split
  · split
    · split <;> infer_instance
    · infer_instance
  · infer_instance

/-- A world after a step, with the step counted. -/
def ticked (w w' : World) : World := { w' with now := w.now + 1 }

theorem calls_set (h : w.Inv) {n : Nat} {call : Call} (hc : w.CallOK call) :
    ∀ c ∈ w.calls.set n call, w.CallOK c := by
  intro c hmem
  rcases List.mem_or_eq_of_mem_set hmem with hold | rfl
  · exact h.calls c hold
  · exact hc

theorem CallOK.phase {call : Call} (h : w.CallOK call) {phase : Phase}
    (hstored : ∀ p vis, phase = .stored p vis → w.Fit p vis) : w.CallOK { call with phase } :=
  ⟨h.known, h.early, h.members, hstored⟩

theorem CallOK.done {call : Call} (h : w.CallOK call) : w.CallOK { call with phase := .done } :=
  h.phase fun _ _ hp => (nomatch hp)

theorem fit_textless {p : Payload} {vis : Vis} (h : p.text = none) : w.Fit p vis :=
  fun _ ht => (nomatch h.symm.trans ht)

theorem Inv.createChannel (h : w.Inv) {id name createdBy : String} {isPrivate : Bool}
    {memberIDs : List String} {at_ : Time} (hnone : w.channels id = none) :
    (ticked w { w with channels := Function.update w.channels id (some {
        id, name, isPrivate, createdBy, createdAt := at_
        members := if isPrivate then Project.firstMembers createdBy memberIDs at_ else [] }) }).Inv := by
  -- nobody was ever removed from the new channel
  have hnever : ∀ x ∈ w.changes, x.channelID ≠ id := by
    rintro x hx rfl
    obtain ⟨ch, hch, -⟩ := h.store.isPrivate x hx
    exact (nomatch hnone.symm.trans hch)
  have hold : ∀ {id' : String} {ch : ChannelDef} {new : Option ChannelDef}, id' ≠ id →
      Function.update w.channels id new id' = some ch → w.channels id' = some ch :=
    fun hne hc => by rwa [Function.update_of_ne hne] at hc
  refine .next (w := w) ⟨fun _ hx => .inl hx, fun _ hx => hx, fun id' ch hch => ?_, Nat.le_succ _⟩ ?_
    (fun id' seq => h.texts id' seq) h.calls h.hub h.streams h.written
  · refine ⟨ch, ?_, rfl⟩
    have hne : id' ≠ id := by
      rintro rfl
      exact (nomatch hnone.symm.trans hch)
    show Function.update w.channels id _ id' = some ch
    rwa [Function.update_of_ne hne]
  · refine ⟨fun id' ch hc => ?_, fun id' ch hc => ?_, fun x hx => ?_, fun x hx => ?_,
      fun id' ch u r hc hu hr => ?_⟩
    · by_cases hne : id' = id
      · subst hne
        change Function.update _ _ _ _ = _ at hc
        rw [Function.update_self] at hc
        cases hc
        rfl
      · exact h.store.named id' ch (hold hne hc)
    · by_cases hne : id' = id
      · subst hne
        change Function.update _ _ _ _ = _ at hc
        rw [Function.update_self] at hc
        cases hc
        unfold ids
        dsimp only
        split
        · exact firstMembers_nodup createdBy memberIDs at_
        · exact List.nodup_nil
      · exact h.store.nodup id' ch (hold hne hc)
    · exact Nat.lt_succ_of_lt (h.store.earlier x hx)
    · obtain ⟨ch, hch, hp⟩ := h.store.isPrivate x hx
      refine ⟨ch, ?_, hp⟩
      show Function.update w.channels id _ _ = some ch
      rwa [Function.update_of_ne (hnever x hx)]
    · exact h.store.members id' ch u r (hold (hnever _ hr) hc) hu hr

/-- A handler has read its channel: who was removed before is not on the list, or is back. -/
theorem Inv.read (h : w.Inv) {channelID : String} {channel : ChannelDef} (task : Task)
    (hch : w.channels channelID = some channel) :
    (ticked w { w with calls := w.calls ++ [{ channel, readAt := w.now, task }] }).Inv := by
  obtain rfl := h.store.named _ _ hch
  have hcall : w.CallOK { channel, readAt := w.now, task } :=
    ⟨⟨channel, hch, rfl⟩, Nat.le_refl _, fun u hu r hr _ => h.store.members _ _ u r hch hu hr,
      fun _ _ hp => (nomatch hp)⟩
  refine h.quiet rfl rfl rfl h.texts (fun c hc => ?_) h.hub h.streams h.written
  rcases List.mem_append.mp hc with hc | hc
  · exact h.calls c hc
  · exact List.mem_singleton.mp hc ▸ hcall

/-- A text that is stored is for nobody who was removed ahead of it. -/
theorem Inv.storeMessage (h : w.Inv) {n : Nat} {call : Call} {op : MessageOp} (env : Env)
    (hcall : w.calls[n]? = some call)
    (hguard : ∀ x ∈ w.changes, x.added = false → x.channelID = call.channel.id →
      x.userID ∈ ids call.channel → call.readAt ≤ x.step →
      x.step < w.changed call.channel.id op → w.Back x.channelID x.userID x.step) :
    (ticked w (w.storeMessage n call op env)).Inv := by
  have hok := h.calls call (List.mem_of_getElem? hcall)
  have hchanged : w.changed call.channel.id op ≤ w.now := by
    unfold changed
    split
    · exact Nat.le_refl _
    · exact h.texts _ _
  unfold World.storeMessage
  dsimp only
  split
  · exact h.quiet rfl rfl rfl h.texts (calls_set h hok.done) h.hub h.streams h.written
  · next m _ =>
    refine h.quiet rfl rfl rfl (fun id seq => ?_) (calls_set h (hok.phase ?_)) h.hub h.streams
      h.written
    · by_cases hid : id = call.channel.id
      · subst hid
        simp only [ticked, Function.update_self]
        by_cases hseq : seq = op.target.getD m.seq
        · rw [hseq, Function.update_self]
          exact hchanged
        · rw [Function.update_of_ne hseq]
          exact h.texts _ _
      · simp only [ticked, Function.update_of_ne hid]
        exact h.texts _ _
    · rintro p vis ⟨⟩ t ht
      dsimp only at ht
      split at ht
      · cases ht
      · cases ht
        obtain ⟨ch, hch, hprivate⟩ := hok.known
        refine ⟨rfl, hchanged, ⟨ch, hch, hprivate, hprivate⟩, fun u hu r hr hlt => ?_⟩
        by_cases hearly : r < call.readAt
        · exact hok.members u hu r hr hearly
        · exact hguard _ hr rfl rfl hu (Nat.not_lt.mp hearly) hlt

theorem Inv.storeMember (h : w.Inv) {n : Nat} {call : Call} {userID : String} {added : Bool}
    {op : ChannelDef → Except (Err × (ChannelDef → ChannelDef)) (Option (ChannelDef → ChannelDef))}
    (saved : Bool) (hcall : w.calls[n]? = some call)
    (hop : ∀ ch result, op ch = .ok result → (ids ch).Nodup →
      ch.isPrivate = true ∧ (ids ((result.getD id) ch)).Nodup ∧
      ((result.getD id) ch).isPrivate = ch.isPrivate ∧ ((result.getD id) ch).id = ch.id ∧
      ∀ u ∈ ids ((result.getD id) ch), (u ∈ ids ch ∧ (added = false → u ≠ userID)) ∨
        (added = true ∧ u = userID)) :
    (ticked w (w.storeMember n call userID added op saved)).Inv := by
  have hok := h.calls call (List.mem_of_getElem? hcall)
  have hrefused : (ticked w { w with
      calls := w.calls.set n { call with phase := .done } }).Inv :=
    h.quiet rfl rfl rfl h.texts (calls_set h hok.done) h.hub h.streams h.written
  unfold World.storeMember
  dsimp only
  split
  · exact hrefused
  · next ch hch =>
    have hstored : ∀ result, op ch = .ok result → (ticked w { w with
        channels := Function.update w.channels call.channel.id (some ((result.getD id) ch))
        changes := { channelID := call.channel.id, userID, added, step := w.now } :: w.changes
        calls := w.calls.set n { call with
          phase := .stored
            { type := if added then "channel.member_added" else "channel.member_removed" }
            { isPrivate := ((result.getD id) ch).isPrivate, channel := (result.getD id) ch
              extraUserIDs := if added then [] else [userID] } } }).Inv := by
      intro result hresult
      obtain ⟨hp, hnodup, hp', hid, hmembers⟩ := hop ch result hresult (h.store.nodup _ _ hch)
      refine .next (h.store.change hch hp hp' hid hnodup hmembers rfl rfl rfl).2
        (h.store.change hch hp hp' hid hnodup hmembers rfl rfl rfl).1 h.texts
        (calls_set h (hok.phase fun p vis hs => fit_textless (by cases hs; rfl)))
        h.hub h.streams h.written
    split
    · exact hrefused
    · next hresult => exact hstored none hresult
    · next f hresult =>
      split
      · exact hstored (some f) hresult
      · exact hrefused

theorem Inv.publish (h : w.Inv) {p : Payload} {vis : Vis} (hf : w.Fit p vis) (projectID : String)
    (epochOf : Option Int) (at_ : Int) (ephemeral : Bool) {calls : List Call}
    (hcalls : ∀ call ∈ calls, w.CallOK call) :
    (ticked w { w.publish projectID p vis epochOf at_ ephemeral with calls }).Inv :=
  h.quiet rfl rfl rfl h.texts hcalls (h.hub.publish hf epochOf at_ projectID ephemeral) h.streams
    h.written

/-- Whoever may see a frame with a text is on its list, or is a moderator. -/
theorem Fit.seen {c : Casing} {id : Identity} {f : Sse.Frame Payload Vis}
    {resolved : Option RoleEntry} (h : w.Inv) (hf : w.Fit f.data f.vis)
    (hmay : entitled c id f.vis resolved = true) :
    w.Seen { id, payload := f.data, moderator := moderator resolved } := by
  intro t ht
  obtain ⟨hextra, hchanged, ⟨ch, hch, hprivate, hlist⟩, hback⟩ := hf t ht
  refine ⟨hchanged, fun r hr hlt => ?_⟩
  obtain ⟨ch', hch', hp⟩ := h.store.isPrivate _ hr
  cases hch.symm.trans hch'
  simp only [entitled, hextra, List.any_nil, Bool.false_eq_true, if_false, hprivate, hp,
    Bool.not_true] at hmay
  split at hmay
  · cases hmay
  cases resolved with
  | none => cases hmay
  | some e =>
    simp only [Option.map_some, Option.getD_some, canAccess, Authorizer.answer] at hmay
    split at hmay
    · cases hmay
    split at hmay
    · next hpublic => simp [hlist, hp] at hpublic
    split at hmay
    · next hmember =>
      obtain ⟨m, hm, hid⟩ := List.any_eq_true.mp hmember.2
      exact .inr (hback _ (List.mem_map.mpr ⟨m, hm, of_decide_eq_true hid⟩) r hr hlt)
    · exact .inl (by simpa [moderator] using hmay)

theorem Inv.writeFrame (h : w.Inv) {c : Casing} {id : Identity} {f : Sse.Frame Payload Vis}
    {resolved : Option RoleEntry} (hf : w.Fit f.data f.vis) :
    ∀ x ∈ (w.writeFrame c id f resolved).written, w.Seen x := by
  unfold World.writeFrame
  split
  · next hmay =>
    intro x hx
    rcases List.mem_cons.mp hx with rfl | hx
    · exact hf.seen h hmay
    · exact h.written x hx
  · exact h.written

@[simp] theorem writeFrame_rest (c : Casing) (id : Identity) (f : Sse.Frame Payload Vis)
    (resolved : Option RoleEntry) :
    w.writeFrame c id f resolved =
      { w with written := (w.writeFrame c id f resolved).written } := by
  unfold World.writeFrame
  split <;> rfl

/-- The streams after one of them has gone on, with some of its replay. -/
theorem Inv.streams_set (h : w.Inv) {i : Nat} {s s' : Stream} (hs : w.streams[i]? = some s)
    (hreplay : ∀ f ∈ s'.replay, f ∈ s.replay) :
    ∀ t ∈ w.streams.set i s', ∀ f ∈ t.replay, w.Fit f.data f.vis := by
  intro t ht f hf
  rcases List.mem_or_eq_of_mem_set ht with hold | rfl
  · exact h.streams t hold f hf
  · exact h.streams s (List.mem_of_getElem? hs) f (hreplay f hf)

theorem Inv.writeReplay (h : w.Inv) {c : Casing} {i : Nat} {s : Stream}
    {f : Sse.Frame Payload Vis} {rest : List (Sse.Frame Payload Vis)}
    (resolved : Option RoleEntry) (hs : w.streams[i]? = some s) (hreplay : s.replay = f :: rest) :
    (ticked w { w.writeFrame c s.id f resolved with
      streams := w.streams.set i { s with replay := rest } }).Inv := by
  have hf : w.Fit f.data f.vis :=
    h.streams s (List.mem_of_getElem? hs) f (hreplay ▸ List.mem_cons_self)
  rw [writeFrame_rest]
  exact h.quiet rfl rfl rfl h.texts h.calls h.hub
    (h.streams_set hs fun g hg => hreplay ▸ List.mem_cons_of_mem _ hg) (h.writeFrame hf)

theorem Inv.write (h : w.Inv) {c : Casing} {id : Identity} {sub : Nat}
    {f : Sse.Frame Payload Vis} {rest : List (Sse.Frame Payload Vis)}
    (resolved : Option RoleEntry) (hch : (w.hub.clients sub).ch = f :: rest) :
    (ticked w { w.writeFrame c id f resolved with hub := Sse.drain w.hub sub }).Inv := by
  have hf : w.Fit f.data f.vis := h.hub.channels sub f (hch ▸ List.mem_cons_self)
  rw [writeFrame_rest]
  exact h.quiet rfl rfl rfl h.texts h.calls (h.hub.drain sub) h.streams (h.writeFrame hf)

theorem Inv.subscribe (h : w.Inv) (id : Identity) (epochOf : Option Int)
    (projectID lastEventID : String) {w' : World}
    (hw : (match Sse.subscribe w.hub epochOf projectID lastEventID with
      | (hub, some answer) => some { w with
          hub, streams := w.streams ++ [{ id, sub := answer.sub, replay := answer.replay }] }
      | (hub, none) => some { w with hub }) = some w') : (ticked w w').Inv := by
  obtain ⟨hhub, hreplay⟩ := h.hub.subscribe epochOf projectID lastEventID
  split at hw
  · next hub answer hsub =>
    cases hw
    rw [hsub] at hhub hreplay
    refine h.quiet rfl rfl rfl h.texts h.calls hhub (fun s hs => ?_) h.written
    rcases List.mem_append.mp hs with hs | hs
    · exact h.streams s hs
    · cases List.mem_singleton.mp hs
      exact hreplay answer rfl
  · next hub hsub =>
    cases hw
    rw [hsub] at hhub
    exact h.quiet rfl rfl rfl h.texts h.calls hhub h.streams h.written

/-! ## Runs -/

theorem inv_start : ({} : World).Inv where
  store := ⟨fun _ _ hc => (nomatch hc), fun _ _ hc => (nomatch hc), fun _ hx => (nomatch hx),
    fun _ hx => (nomatch hx), fun _ _ _ _ hc => (nomatch hc)⟩
  texts _ _ := Nat.le_refl 0
  calls _ hc := (nomatch hc)
  hub := Sse.holds_new _
  streams _ hs := (nomatch hs)
  written _ hx := (nomatch hx)

theorem Inv.act (h : w.Inv) {c : Casing} {projectID : String} {e : Event}
    (hguard : w.Unhindered e) (hact : w.act c projectID e = some w') : (ticked w w').Inv := by
  cases e with
  | createChannel id name createdBy isPrivate memberIDs at_ =>
    simp only [World.act] at hact
    split at hact
    · next hnone =>
      cases hact
      exact h.createChannel (Option.isNone_iff_eq_none.mp hnone)
    · cases hact
  | read caller e channelID task =>
    simp only [World.act] at hact
    split at hact
    · next channel hch =>
      split at hact
      · cases hact
        exact h.read task hch
      · cases hact
    · cases hact
  | storeMessage n env =>
    simp only [World.act] at hact
    split at hact
    · next call hcall =>
      split at hact
      · next op htask _ =>
        cases hact
        simp only [Unhindered, hcall, htask] at hguard
        exact h.storeMessage env hcall hguard
      · cases hact
    · cases hact
  | storeMember n env saved =>
    simp only [World.act] at hact
    split at hact
    · next call hcall =>
      split at hact
      · next userID addedBy _ _ =>
        cases hact
        refine h.storeMember saved hcall fun ch result hop hnodup => ?_
        obtain ⟨hp, hnodup', hp', hid, hmembers⟩ := addChannelMember_ids hop hnodup
        exact ⟨hp, hnodup', hp', hid, fun u hu =>
          (hmembers u hu).imp (fun hold => ⟨hold, fun hadded => absurd hadded (by decide)⟩) fun hu => ⟨rfl, hu⟩⟩
      · next userID _ _ =>
        cases hact
        refine h.storeMember saved hcall fun ch result hop hnodup => ?_
        obtain ⟨hp, hnodup', hp', hid, hmembers⟩ := removeChannelMember_ids hop hnodup
        exact ⟨hp, hnodup', hp', hid, fun u hu => .inl ⟨(hmembers u hu).1, fun _ => (hmembers u hu).2⟩⟩
      · cases hact
    · cases hact
  | publish n epochOf at_ =>
    simp only [World.act] at hact
    split at hact
    · next call hcall =>
      have hok := h.calls call (List.mem_of_getElem? hcall)
      split at hact
      · next payload vis hphase =>
        cases hact
        exact h.publish (hok.stored payload vis hphase) projectID epochOf at_ false
          (calls_set h hok.done)
      · cases hact
    · cases hact
  | other type vis epochOf at_ ephemeral =>
    cases hact
    exact h.publish (fit_textless rfl) projectID epochOf at_ ephemeral h.calls
  | subscribe id epochOf lastEventID => exact h.subscribe id epochOf projectID lastEventID hact
  | writeReplay i resolved =>
    simp only [World.act] at hact
    split at hact
    · next s hs =>
      split at hact
      · next f rest hreplay =>
        split at hact
        · cases hact
        · cases hact
          exact h.writeReplay resolved hs hreplay
      · cases hact
    · cases hact
  | write i resolved =>
    simp only [World.act] at hact
    split at hact
    · next s hs =>
      split at hact
      · next f rest _ hch =>
        split at hact
        · cases hact
        · cases hact
          exact h.write resolved hch
      · cases hact
    · cases hact
  | close i =>
    simp only [World.act] at hact
    split at hact
    · next s hs =>
      cases hact
      exact h.quiet rfl rfl rfl h.texts h.calls (h.hub.unsubscribe projectID s.sub)
        (h.streams_set hs fun _ hf => hf) h.written
    · cases hact

/-- The runs of a project's chat whose steps meet a condition. -/
abbrev Runs (c : Casing) (projectID : String) (ok : World → Event → Prop) :
    List Event → World → Prop :=
  Lib.Run (fun w e w' => w.step c projectID e = some w') ok {}

theorem inv_of_run {c : Casing} {projectID : String} {es : List Event}
    (h : Runs c projectID Unhindered es w) : w.Inv := by
  refine h.invariant inv_start fun w e w' hw hguard hstep => ?_
  obtain ⟨w₁, hact, rfl⟩ := Option.map_eq_some_iff.mp hstep
  exact hw.act hguard hact

/-- Where no message operation goes to the store with a list of members that is behind a removal
which its text comes after, a removed member is shown no text from after the removal, but as a
moderator or after being added back. -/
theorem removed_shown_nothing {c : Casing} {projectID : String} {es : List Event}
    (h : Runs c projectID Unhindered es w) {x : Written} (hx : x ∈ w.written) {t : Text}
    (ht : x.payload.text = some t) {r : Nat} (hr : w.RemovedAt t.channelID x.id.userID r)
    (hlater : r < t.changed) : x.moderator = true ∨ w.Back t.channelID x.id.userID r :=
  ((inv_of_run h).written x hx t ht).2 r hr hlater

section

def manager : Identity where
  userID := "u1"
  email := "max@example.com"

def leaver : Identity where
  userID := "u2"
  email := "una@example.com"

def role (role : String) : RoleEntry where
  role := role
  listed := true
  active := true
  foundAt := 0

def post : MessageOp := .create "u1" "Max" "m1" "secret" 0

def onDisk : Env where
  now := 0
  load := none
  write := .full

/-- A member is removed and added back, and then there is a message. -/
def addedBack : List Event :=
  [.createChannel "c" "plans" "u1" true ["u2"] 0,
    .subscribe leaver (some 1) "",
    .read manager (role "MANAGER") "c" (.remove "u2"),
    .storeMember 0 { now := 0 } true, .publish 0 (some 1) 0,
    .read manager (role "MANAGER") "c" (.add "u2" "u1"),
    .storeMember 1 { now := 0 } true, .publish 1 (some 1) 0,
    .read manager (role "MANAGER") "c" (.message post),
    .storeMessage 2 onDisk, .publish 2 (some 1) 0,
    .write 0 (some (role "EDITOR")), .write 0 (some (role "EDITOR")),
    .write 0 (some (role "EDITOR"))]

theorem removed_shown_nothing_addedBack : ∃ w, Runs asciiCasing "p" Unhindered addedBack w ∧
    ∃ x ∈ w.written, ∃ t, x.payload.text = some t ∧ x.id = leaver ∧
      (x.moderator = true ∨ w.Back t.channelID x.id.userID 3) := by
  have hrun : Runs asciiCasing "p" Unhindered addedBack _ := Lib.Run.of_exec addedBack rfl
  exact ⟨_, hrun, _, List.mem_cons_self, _, rfl, rfl,
    removed_shown_nothing hrun List.mem_cons_self rfl (by decide) (by decide)⟩

/-- The post has read the channel ahead of the removal. -/
def racing : List Event :=
  [.createChannel "c" "plans" "u1" true ["u2"] 0,
    .subscribe leaver (some 1) "",
    .read manager (role "MANAGER") "c" (.message post),
    .read manager (role "MANAGER") "c" (.remove "u2"),
    .storeMember 1 { now := 0 } true, .publish 1 (some 1) 0,
    .storeMessage 0 onDisk, .publish 0 (some 1) 0,
    .write 0 (some (role "EDITOR")), .write 0 (some (role "EDITOR"))]

/-- The one who was removed is shown what was stored after it. -/
theorem removed_shown_later : ∃ w, Runs asciiCasing "p" Lib.always racing w ∧
    ∃ x ∈ w.written, ∃ t, x.payload.text = some t ∧ ∃ r, w.RemovedAt t.channelID x.id.userID r ∧
      r < t.changed ∧ x.moderator = false ∧ ¬ w.Back t.channelID x.id.userID r := by
  have hrun : Runs asciiCasing "p" Lib.always racing _ := Lib.Run.of_exec racing rfl
  exact ⟨_, hrun, _, List.mem_cons_self, _, rfl, 4, by decide, by decide, by rfl, by decide⟩

end

end World

end Audience

end FusionLocalServer.Chat
