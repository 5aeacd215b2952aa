import Mathlib.Data.List.Infix
import FusionLocalServer.Sse.Replay

/-!
# What a stream still has before it

An open stream has frames due to it: what is left of its replay, and what its channel holds.
As long as the hub has not closed it, these are the room's events from the next one on, in
their order and with none missing; from then on they are the first of them. A stream takes
frames off at the front, so it comes to the events of its room one after another.
-/

namespace FusionLocalServer.Sse

open Lib

variable {D V : Type}

/-! ## The events of a room -/

/-- The frames of all durable events of a room so far. -/
def events (h : Hub D V) (roomID : String) : List (Frame D V) :=
  ((h.rooms roomID).map fun r => number r.epoch r.log).getD []

theorem events_of_room {h : Hub D V} {roomID : String} {r : Room D V}
    (hr : h.rooms roomID = some r) : events h roomID = number r.epoch r.log := by
  rw [events, hr]
  rfl

theorem getElem?_number {epoch : Int} {log : List (D × V)} {i : Nat} {f : Frame D V}
    (hf : (number epoch log)[i]? = some f) : f.ID = eventID epoch (i + 1) := by
  rw [number, List.getElem?_map, List.getElem?_zipIdx] at hf
  cases hx : log[i]? with
  | none => simp [hx] at hf
  | some x =>
    simp only [hx, Option.map_some, Option.some.injEq] at hf
    subst hf
    simp

theorem eventID_inj {epoch s t : Int} (h : eventID epoch s = eventID epoch t) : s = t := by
  have hlist := congrArg String.toList h
  rw [eventID, eventID, String.toList_ofList, String.toList_ofList] at hlist
  exact formatInt_injective (List.cons.inj (List.append_cancel_left hlist)).2

/-- The id of an event is its own. -/
theorem events_inj {h : Hub D V} {roomID : String} {i j : Nat} {f f' : Frame D V}
    (hf : (events h roomID)[i]? = some f) (hf' : (events h roomID)[j]? = some f')
    (hid : f.ID = f'.ID) : i = j := by
  cases hr : h.rooms roomID with
  | none => simp [events, hr] at hf
  | some r =>
    rw [events_of_room hr] at hf hf'
    rw [getElem?_number hf, getElem?_number hf'] at hid
    have := eventID_inj hid
    omega

theorem durable_of_mem_events {h : Hub D V} {roomID : String} {f : Frame D V}
    (hf : f ∈ events h roomID) : f.durable = true := by
  obtain ⟨i, hi⟩ := List.mem_iff_getElem?.mp hf
  cases hr : h.rooms roomID with
  | none => simp [events, hr] at hi
  | some r =>
    rw [events_of_room hr] at hi
    rw [Frame.durable, getElem?_number hi]
    exact decide_eq_true (eventID_ne_empty _ _)

theorem Locked.events {h h₁ : Hub D V} {id : String} {r : Room D V} (hl : Locked h id h₁ r)
    (roomID : String) : events h₁ roomID = events h roomID := by
  by_cases hid : roomID = id
  · subst hid
    rcases hl.found with ⟨r₀, hr₀, rfl⟩ | ⟨hnone, epoch, rfl⟩
    · rw [events_of_room hl.room, events_of_room hr₀]
    · rw [events_of_room hl.room, Sse.events, hnone]
      rfl
  · rw [Sse.events, hl.others _ hid, Sse.events]

/-- The event a `Publish` adds is the last of its room. -/
theorem events_append {h : Hub D V} {id : String} {r : Room D V} (hok : HubOK h)
    (hr : h.rooms id = some r) (now : Int) (d : D) (vis : V) :
    events (setRoom h id (appendEvent h.cfg now r d vis)) id =
      events h id ++ [{ ID := eventID r.epoch (r.seq + 1), data := d, vis }] := by
  rw [events_of_room (setRoom_rooms_self ..), events_of_room hr, (hok.rings _ _ hr).seq_eq]
  exact number_append_singleton ..

theorem events_setRoom_other (h : Hub D V) {id roomID : String} (r : Room D V)
    (hid : id ≠ roomID) : events (setRoom h id r) roomID = events h roomID := by
  rw [events, setRoom_rooms_other _ _ (Ne.symm hid), events]

/-- Events stay, and new ones come after them. -/
theorem events_exec {h : Hub D V} (hok : HubOK h) (roomID : String) (op : Op D V) :
    events h roomID <+: events (exec h op) roomID := by
  have hpublish : ∀ (epochOf : Option Int) now (id : String) (data : Option D) (vis : V) eph,
      events h roomID <+: events (publish h epochOf now id data vis eph).1 roomID := by
    intro epochOf now id data vis eph
    rcases publish_cases h epochOf now id data vis eph with heq | ⟨d, h₁, r, -, hl, heq⟩
    · rw [heq]
    · rw [heq, ← hl.events roomID]
      cases eph with
      | true => exact List.prefix_rfl
      | false =>
        show _ <+: events (setRoom h₁ id (appendEvent h₁.cfg now r d vis)) roomID
        by_cases hid : id = roomID
        · subst hid
          rw [events_append (hl.hubOK hok) hl.room]
          exact List.prefix_append ..
        · rw [events_setRoom_other _ _ hid]
  cases op with
  | publish => exact hpublish ..
  | publishEphemeral => exact hpublish ..
  | subscribe epochOf id lastEventID =>
    show _ <+: events (subscribe h epochOf id lastEventID).1 roomID
    rw [subscribe]
    cases hl : roomLocked h epochOf id with
    | none => exact List.prefix_rfl
    | some p =>
      rw [← (roomLocked_spec hl).events roomID]
      exact List.prefix_rfl
  | unsubscribe => exact List.prefix_rfl
  | closeAll => exact List.prefix_rfl
  | drain => exact List.prefix_rfl

/-! ## Following a room -/

/-- Stream `sub` of a room has come to the room's event `p`: what is due to it, the rest of its
replay and then its channel, is the events from there on, or the first of them once it is
closed. -/
structure Following (roomID : String) (sub : Nat) (replay : List (Frame D V)) (p : Nat)
    (h : Hub D V) : Prop where
  fresh : sub < h.next
  subs : ∀ id, (id, sub) ∈ h.subs ↔ id = roomID ∧ (h.clients sub).quit = false
  reached : p ≤ (events h roomID).length
  due : replay ++ (h.clients sub).ch.filter Frame.durable <+: (events h roomID).drop p
  all : (h.clients sub).quit = false →
    replay ++ (h.clients sub).ch.filter Frame.durable = (events h roomID).drop p

section

variable {roomID : String} {sub : Nat} {replay : List (Frame D V)} {p : Nat} {h : Hub D V}

/-- What leaves the stream itself and its registration alone leaves it where it is. -/
theorem Following.frame (hf : Following roomID sub replay p h) {h' : Hub D V}
    (hnext : h.next ≤ h'.next) (hclient : h'.clients sub = h.clients sub)
    (hsubs : ∀ id, (id, sub) ∈ h'.subs ↔ (id, sub) ∈ h.subs)
    (hevents : events h' roomID = events h roomID) : Following roomID sub replay p h' where
  fresh := Nat.lt_of_lt_of_le hf.fresh hnext
  subs := fun id => by rw [hsubs, hclient, hf.subs]
  reached := by rw [hevents]; exact hf.reached
  due := by rw [hclient, hevents]; exact hf.due
  all := by rw [hclient, hevents]; exact hf.all

/-- A stream that is closed keeps what its channel holds, whatever is published. -/
theorem Following.closed (hf : Following roomID sub replay p h) {h' : Hub D V}
    (hnext : h.next ≤ h'.next) (hch : (h'.clients sub).ch = (h.clients sub).ch)
    (hquit : (h'.clients sub).quit = true) (hsubs : ∀ id, (id, sub) ∉ h'.subs)
    (hevents : events h roomID <+: events h' roomID) : Following roomID sub replay p h' where
  fresh := Nat.lt_of_lt_of_le hf.fresh hnext
  subs := fun id => by simp [hsubs id, hquit]
  reached := Nat.le_trans hf.reached hevents.length_le
  due := by
    rw [hch]
    exact hf.due.trans (List.IsPrefix.drop hevents p)
  all := fun hopen => absurd (hquit.symm.trans hopen) (by decide)

theorem Following.locked (hf : Following roomID sub replay p h) {id : String} {h₁ : Hub D V}
    {r : Room D V} (hl : Locked h id h₁ r) : Following roomID sub replay p h₁ :=
  hf.frame (Nat.le_of_eq hl.next.symm) (by rw [hl.clients]) (fun _ => by rw [hl.subs])
    (hl.events roomID)

/-- A frame fanned out in another room passes the stream by. -/
theorem Following.fanOut_other (hf : Following roomID sub replay p h) {id : String}
    (hid : id ≠ roomID) (f : Frame D V) :
    Following roomID sub replay p (fanOut h id f) := by
  have hnot : (id, sub) ∉ h.subs := fun hmem => hid ((hf.subs id).mp hmem).1
  refine hf.frame (Nat.le_refl _) (if_neg hnot) (fun id' => ?_) rfl
  show (id', sub) ∈ h.subs.filter _ ↔ _
  rw [List.mem_filter, and_iff_left_iff_imp]
  intro hmem
  have : id' ≠ id := fun heq => hnot (heq ▸ hmem)
  simp [this]

/-- A frame fanned out in the stream's own room, from a hub `h` to which the room's event `e`
has come since `h₀`: it goes to the end of the channel, unless the stream is closed. -/
theorem Following.fanOut_self {h₀ : Hub D V} (hf : Following roomID sub replay p h₀)
    (hcfg : h.next = h₀.next) (hclients : h.clients = h₀.clients) (hsubs : h.subs = h₀.subs)
    (f : Frame D V)
    (hevents : events h roomID = events h₀ roomID ++ [f].filter Frame.durable) :
    Following roomID sub replay p (fanOut h roomID f) := by
  have hgrown : events h₀ roomID <+: events (fanOut h roomID f) roomID := by
    show _ <+: events h roomID
    rw [hevents]
    exact List.prefix_append ..
  by_cases hopen : (h₀.clients sub).quit = false
  · have hmem : (roomID, sub) ∈ h.subs := hsubs ▸ (hf.subs roomID).mpr ⟨rfl, hopen⟩
    have hclient : (fanOut h roomID f).clients sub =
        if full h.cfg (h.clients sub) then (h.clients sub).close
        else (h.clients sub).push f := if_pos hmem
    by_cases hfull : full h.cfg (h.clients sub) = true
    · -- no room left on the channel: the hub gives the stream up
      rw [if_pos hfull] at hclient
      refine hf.closed (Nat.le_of_eq hcfg.symm) ?_ ?_ (fun id hid => ?_) hgrown
      · rw [hclient, hclients]
        rfl
      · rw [hclient]
        rfl
      · obtain ⟨hold, hkept⟩ := List.mem_filter.mp hid
        have hroom := ((hf.subs id).mp (hsubs ▸ hold)).1
        simp [hroom, hfull] at hkept
    · rw [if_neg hfull] at hclient
      have hdue : replay ++ ((h.clients sub).push f).ch.filter Frame.durable =
          (events h roomID).drop p := by
        rw [hevents, List.drop_append_of_le_length hf.reached, ← hf.all hopen, hclients,
          List.append_assoc, ← List.filter_append]
        rfl
      refine { fresh := hcfg ▸ hf.fresh, subs := fun id => ?_
               reached := Nat.le_trans hf.reached hgrown.length_le
               due := ?_, all := fun _ => ?_ }
      · rw [hclient]
        show (id, sub) ∈ h.subs.filter _ ↔ _ ∧ (h.clients sub).quit = false
        rw [List.mem_filter, hsubs, hf.subs, hclients]
        simp [← hclients, hfull]
      · rw [hclient, hdue]
        exact List.prefix_rfl
      · rw [hclient]
        exact hdue
  · have hquit : (h₀.clients sub).quit = true := by simpa using hopen
    have hnot : ∀ id, (id, sub) ∉ h.subs := fun id hid =>
      hopen ((hf.subs id).mp (hsubs ▸ hid)).2
    have hclient : (fanOut h roomID f).clients sub = h₀.clients sub :=
      (if_neg (hnot roomID)).trans (by rw [hclients])
    exact hf.closed (Nat.le_of_eq hcfg.symm) (by rw [hclient]) (by rw [hclient, hquit])
      (fun id hid => hnot id (List.mem_of_mem_filter hid)) hgrown

theorem Following.publish (hf : Following roomID sub replay p h) (hok : HubOK h)
    (epochOf : Option Int) (now : Int) (id : String) (data : Option D) (vis : V)
    (ephemeral : Bool) :
    Following roomID sub replay p (publish h epochOf now id data vis ephemeral).1 := by
  rcases publish_cases h epochOf now id data vis ephemeral with heq | ⟨d, h₁, r, -, hl, heq⟩
  · rw [heq]
    exact hf
  · rw [heq]
    have hf₁ := hf.locked hl
    by_cases hid : id = roomID
    · subst hid
      cases ephemeral with
      | true => exact hf₁.fanOut_self rfl rfl rfl _ (List.append_nil _).symm
      | false =>
        refine hf₁.fanOut_self (h := setRoom h₁ id _) rfl rfl rfl _ ?_
        rw [events_append (hl.hubOK hok) hl.room, List.filter_cons_of_pos]
        · rfl
        · exact decide_eq_true (eventID_ne_empty _ _)
    · cases ephemeral with
      | true => exact hf₁.fanOut_other hid _
      | false =>
        refine Following.fanOut_other ?_ hid _
        exact hf₁.frame (Nat.le_refl _) rfl (fun _ => Iff.rfl)
          (events_setRoom_other h₁ _ hid)

theorem Following.subscribe (hf : Following roomID sub replay p h) (epochOf : Option Int)
    (id lastEventID : String) :
    Following roomID sub replay p (subscribe h epochOf id lastEventID).1 := by
  unfold Sse.subscribe
  cases hl : roomLocked h epochOf id with
  | none => exact hf
  | some q =>
    have hf₁ := hf.locked (roomLocked_spec hl)
    have hne : sub ≠ q.1.next := Nat.ne_of_lt hf₁.fresh
    refine hf₁.frame (Nat.le_succ _) (if_neg hne) (fun id' => ?_) rfl
    show (id', sub) ∈ q.1.subs ++ [(id, q.1.next)] ↔ _
    simp [hne]

/-- An operation that is another's: it takes nothing off this stream's channel and does not
close it by name. -/
def Op.Others (sub : Nat) : Op D V → Prop
  | .unsubscribe _ i | .drain i => i ≠ sub
  | _ => True

/-- Whatever the others do, the stream stays where it is. -/
theorem Following.exec (hf : Following roomID sub replay p h) (hok : HubOK h) {op : Op D V}
    (hop : op.Others sub) : Following roomID sub replay p (exec h op) := by
  cases op with
  | publish => exact hf.publish hok ..
  | publishEphemeral => exact hf.publish hok ..
  | subscribe => exact hf.subscribe ..
  | unsubscribe id i =>
    refine hf.frame (Nat.le_refl _) (if_neg (Ne.symm hop)) (fun id' => ?_) rfl
    show (id', sub) ∈ h.subs.filter _ ↔ _
    have hne : ¬ sub = i := Ne.symm hop
    simp [hne]
  | closeAll =>
    by_cases hmem : sub ∈ h.subs.map Prod.snd
    · have hclient : (closeAll h).clients sub = (h.clients sub).close := if_pos hmem
      refine hf.closed (Nat.le_refl _) ?_ ?_ (fun _ hid => nomatch hid) List.prefix_rfl
      · show ((closeAll h).clients sub).ch = _
        rw [hclient]
        rfl
      · show ((closeAll h).clients sub).quit = _
        rw [hclient]
        rfl
    · have hclient : (closeAll h).clients sub = h.clients sub := if_neg hmem
      have hnot : ∀ id, (id, sub) ∉ h.subs := fun id hid => hmem (List.mem_map.mpr ⟨_, hid, rfl⟩)
      refine hf.frame (Nat.le_refl _) hclient (fun id => ?_) rfl
      exact ⟨fun hid => (nomatch hid), fun hid => absurd hid (hnot id)⟩
  | drain i => exact hf.frame (Nat.le_refl _) (if_neg (Ne.symm hop)) (fun _ => Iff.rfl) rfl

/-- The next frame of the replay is the event the stream has come to. -/
theorem Following.writeReplay {f : Frame D V} (hf : Following roomID sub (f :: replay) p h) :
    (events h roomID)[p]? = some f ∧ Following roomID sub replay (p + 1) h := by
  obtain ⟨rest, hrest⟩ := hf.due
  have hdrop : (events h roomID).drop p =
      f :: (replay ++ (h.clients sub).ch.filter Frame.durable ++ rest) := hrest.symm
  have hget : (events h roomID)[p]? = some f := by
    rw [← List.head?_drop, hdrop]
    rfl
  have hnext : (events h roomID).drop (p + 1) =
      replay ++ (h.clients sub).ch.filter Frame.durable ++ rest := by
    rw [← List.tail_drop, hdrop]
    rfl
  refine ⟨hget, { fresh := hf.fresh, subs := hf.subs, reached := ?_, due := ?_, all := ?_ }⟩
  · exact (List.getElem?_eq_some_iff.mp hget).1
  · exact ⟨rest, hnext.symm⟩
  · intro hopen
    have hall := hf.all hopen
    rw [hdrop] at hall
    rw [hnext]
    exact (List.cons.inj hall).2

/-- The stream takes the oldest frame off its channel, its replay being done: the event it has
come to, or an ephemeral one. -/
theorem Following.drain {f : Frame D V} {rest : List (Frame D V)}
    (hf : Following roomID sub [] p h) (hch : (h.clients sub).ch = f :: rest) :
    if f.durable then (events h roomID)[p]? = some f ∧ Following roomID sub [] (p + 1) (drain h sub)
    else Following roomID sub [] p (drain h sub) := by
  have hclient : (Sse.drain h sub).clients sub =
      { h.clients sub with ch := (h.clients sub).ch.tail } := if_pos rfl
  have hdrained : (Sse.drain h sub).clients sub = { h.clients sub with ch := rest } := by
    rw [hclient, hch]
    rfl
  -- the same stream with the frame moved to the front of what is left of a replay
  have hmoved : Following roomID sub ([f].filter Frame.durable) p (Sse.drain h sub) := by
    have hsplit : [f].filter Frame.durable ++ rest.filter Frame.durable =
        [] ++ (h.clients sub).ch.filter Frame.durable := by
      rw [hch, ← List.filter_append]
      rfl
    refine { fresh := hf.fresh, subs := fun id => ?_, reached := hf.reached, due := ?_
             all := fun hopen => ?_ }
    · rw [hdrained]
      exact hf.subs id
    · rw [hdrained, hsplit]
      exact hf.due
    · rw [hdrained] at hopen ⊢
      rw [hsplit]
      exact hf.all hopen
  by_cases hdur : f.durable = true
  · rw [if_pos hdur]
    rw [List.filter_cons_of_pos hdur] at hmoved
    exact hmoved.writeReplay
  · rw [if_neg hdur]
    rwa [List.filter_cons_of_neg hdur] at hmoved

end

/-! ## Where a stream starts -/

/-- An id handed out reads back as itself, or not at all. -/
theorem eq_of_parseEventID {epoch seq : Int} {p : Int × Int}
    (h : parseEventID (eventID epoch seq) = some p) : p = (epoch, seq) := by
  unfold parseEventID at h
  rw [eventID, String.toList_ofList] at h
  by_cases hpos : 0 ≤ epoch
  · have hform : formatInt epoch = Nat.toDigits 10 epoch.toNat := by rw [formatInt, if_pos hpos]
    have hnodash : '-' ∉ formatInt epoch := by
      rw [hform]
      intro hmem
      exact absurd (isDigit_of_mem_toDigits hmem) (by decide)
    have hidx : (formatInt epoch ++ '-' :: formatInt seq).idxOf '-' =
        (formatInt epoch).length := by
      rw [List.idxOf_append_of_notMem hnodash, List.idxOf_cons_self, Nat.add_zero]
    have hdrop : (formatInt epoch ++ '-' :: formatInt seq).drop
        ((formatInt epoch).length + 1) = formatInt seq := by
      rw [← List.drop_drop, List.drop_left' rfl]
      rfl
    simp only [hidx, List.take_left' rfl, hdrop] at h
    split at h
    · cases h
    · obtain ⟨e, he, h⟩ := Option.bind_eq_some_iff.mp h
      obtain ⟨s, hs, h⟩ := Option.bind_eq_some_iff.mp h
      rw [eq_of_parseInt64_formatInt he, eq_of_parseInt64_formatInt hs] at h
      exact (Option.some.inj h).symm
  · -- a negative epoch begins with the dash the reader stops at
    have hform : formatInt epoch = '-' :: Nat.toDigits 10 (-epoch).toNat := by
      rw [formatInt, if_neg hpos]
    have hidx : (formatInt epoch ++ '-' :: formatInt seq).idxOf '-' = 0 := by
      rw [hform, List.cons_append, List.idxOf_cons_self]
    simp only [hidx, true_or, if_true] at h
    cases h

/-- With a reset there is no replay. -/
theorem resume_reset {r : Room D V} {lastEventID : String}
    (hreset : (resume r lastEventID).2 = true) : (resume r lastEventID).1 = [] := by
  unfold resume at hreset ⊢
  repeat' split
  all_goals first | rfl | simp_all

theorem events_subscribe {h h' : Hub D V} {epochOf : Option Int} {roomID lastEventID : String}
    {ans : Answer D V} (hsub : Sse.subscribe h epochOf roomID lastEventID = (h', some ans)) :
    events h' roomID = events h roomID := by
  obtain ⟨h₁, r, hl, -, -, -, hrooms, -⟩ := subscribe_spec hsub
  rw [← hl.events roomID, events, hrooms, events]

/-- A stream starts at the first event of its replay, or behind all there are. -/
theorem Following.start {h h' : Hub D V} (hok : HubOK h) {epochOf : Option Int}
    {roomID lastEventID : String} {ans : Answer D V}
    (hsub : Sse.subscribe h epochOf roomID lastEventID = (h', some ans)) {p : Nat}
    (hp : p ≤ (events h roomID).length) (hreplay : ans.replay = (events h roomID).drop p) :
    Following roomID ans.sub ans.replay p h' := by
  obtain ⟨h₁, r, hl, hans, -, -, -, hsubs, hclient, hnext⟩ := subscribe_spec hsub
  have hevents := events_subscribe hsub
  have hempty : ans.replay ++ (h'.clients ans.sub).ch.filter Frame.durable =
      (events h' roomID).drop p := by
    rw [hans, hclient, hevents, ← hreplay]
    exact List.append_nil _
  refine { fresh := ?_, subs := fun id => ?_, reached := hevents ▸ hp
           due := hempty ▸ List.prefix_rfl, all := fun _ => hempty }
  · rw [hans, hnext]
    exact Nat.lt_succ_self _
  · have hfresh : (id, h.next) ∉ h₁.subs := fun hmem =>
      absurd ((hl.hubOK hok).named _ hmem) (by rw [hl.next]; exact Nat.lt_irrefl _)
    rw [hsubs, hans, hclient]
    simp [hfresh]

/-- A stream that resumes from the id of an event is given those after it, or a reset. -/
theorem replay_of_event {h h' : Hub D V} (hok : HubOK h) {epochOf : Option Int}
    {roomID : String} {f : Frame D V} {ans : Answer D V}
    (hsub : Sse.subscribe h epochOf roomID f.ID = (h', some ans)) {j : Nat}
    (hf : (events h roomID)[j]? = some f) (hreset : ans.reset = false) :
    ans.replay = (events h roomID).drop (j + 1) := by
  obtain ⟨h₁, r, hl, -, hreplay, hres, -⟩ := subscribe_spec hsub
  have hroom := events_of_room hl.room
  rw [hl.events] at hroom
  rw [hroom] at hf ⊢
  have hid := getElem?_number hf
  cases hparse : parseEventID f.ID with
  | none =>
    -- an id that is not read back is answered with a reset
    have hne : f.ID ≠ "" := hid ▸ eventID_ne_empty _ _
    rw [hres, resume, if_neg hne, hparse] at hreset
    exact nomatch hreset
  | some q =>
    obtain rfl : q = (r.epoch, (j : Int) + 1) := eq_of_parseEventID (hid ▸ hparse)
    rw [hreplay, (resume_exact (hl.ringOK hok) hparse (hres ▸ hreset)).2]
    rfl

end FusionLocalServer.Sse
