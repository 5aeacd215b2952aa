import Mathlib.Data.List.DropRight
import FusionLocalServer.Sse.Hub

/-!
# Gap-free, duplicate-free replay

`Subscribe` either answers `reset` or splices a replay from the ring onto the live
channel. The splice is exact because three facts hold in every reachable state, whatever
the ring capacity, the age limit, the channel depth and the clock:

- a room's sequence is the number of durable events published to it, and its ring is the
  numbered tail of them (`RingOK`): the trim loop only ever drops from the front;
- a subscriber that is not closed is registered in exactly one room, so it is offered
  every event of that room and none of another (`Live`);
- an offer either places the frame or closes the subscriber, so what was placed before
  the close never has a hole.
-/

namespace FusionLocalServer.Sse

open Lib

variable {D V : Type}

/-! ## Numbered events -/

/-- The frames a room's durable events are rendered to, in order: the first has sequence
number 1. -/
def number (epoch : Int) (log : List (D × V)) : List (Frame D V) :=
  log.zipIdx.map fun p => { ID := eventID epoch (p.2 + 1), data := p.1.1, vis := p.1.2 }

theorem number_append_singleton (epoch : Int) (log : List (D × V)) (x : D × V) :
    number epoch (log ++ [x]) =
      number epoch log ++ [{ ID := eventID epoch (log.length + 1), data := x.1, vis := x.2 }] := by
  simp [number, List.zipIdx_append]

theorem length_number (epoch : Int) (log : List (D × V)) :
    (number epoch log).length = log.length := by
  simp [number]

/-- Every durable frame carries a non-empty id. -/
theorem eventID_ne_empty (epoch seq : Int) : eventID epoch seq ≠ "" := by
  intro h
  have := congrArg String.toList h
  rw [eventID, String.toList_ofList] at this
  simp at this

/-- Keeping the entries numbered from `n + k` on is dropping the first `k`. -/
theorem filter_zipIdx_le {α : Type} (l : List α) :
    ∀ (n k : Nat), (l.zipIdx n).filter (fun p => n + k ≤ p.2) = (l.zipIdx n).drop k := by
  induction l with
  | nil => simp
  | cons a rest ih =>
    intro n k
    rw [List.zipIdx_cons]
    cases k with
    | zero =>
      have hall : ∀ p ∈ rest.zipIdx (n + 1), decide (n + 0 ≤ p.2) = true := by
        intro p hp
        have := List.le_snd_of_mem_zipIdx hp
        exact decide_eq_true (by omega)
      rw [List.filter_cons_of_pos (by simp), List.filter_eq_self.mpr hall]
      rfl
    | succ k =>
      rw [List.filter_cons_of_neg (by simp), List.drop_succ_cons, ← ih (n + 1) k]
      refine List.filter_congr fun p _ => ?_
      congr 1
      exact propext ⟨fun h => by omega, fun h => by omega⟩

theorem drop_zipIdx {α : Type} (l : List α) :
    ∀ n j : Nat, (l.zipIdx n).drop j = (l.drop j).zipIdx (n + j) := by
  induction l with
  | nil => simp
  | cons a rest ih =>
    intro n j
    cases j with
    | zero => rfl
    | succ j =>
      rw [List.zipIdx_cons, List.drop_succ_cons, List.drop_succ_cons, ih,
        Nat.add_assoc, Nat.add_comm 1 j]

/-! ## The ring is the numbered tail of the log -/

/-- What a ring entry records of the event at a position of the log. -/
def entryOf (p : (D × V) × Nat) : Int × D × V := ((p.2 : Int) + 1, p.1.1, p.1.2)

/-- The recorded part of a ring entry. -/
def RingEntry.recorded (e : RingEntry D V) : Int × D × V := (e.seq, e.data, e.vis)

/-- A room's bookkeeping: the sequence counts the events, and the ring holds all of them
but the first `k`, under their own numbers. -/
structure RingOK (r : Room D V) : Prop where
  seq_eq : r.seq = r.log.length
  tail : ∃ k, k ≤ r.log.length ∧
    r.ring.map RingEntry.recorded = ((r.log.drop k).zipIdx k).map entryOf

theorem ringOK_new (epoch : Int) :
    RingOK ({ epoch, seq := 0, ring := [], log := [] } : Room D V) :=
  { seq_eq := rfl, tail := ⟨0, Nat.le_refl 0, rfl⟩ }

/-- The trim loop drops a prefix. -/
theorem trimRing_eq_drop (cfg : Config) (now : Int) :
    ∀ ring : List (RingEntry D V), ∃ j, j ≤ ring.length ∧ trimRing cfg now ring = ring.drop j
  | [] => ⟨0, Nat.le_refl 0, rfl⟩
  | e :: rest => by
    rw [trimRing]
    split
    · obtain ⟨j, hj, heq⟩ := trimRing_eq_drop cfg now rest
      exact ⟨j + 1, Nat.succ_le_succ hj, heq⟩
    · exact ⟨0, Nat.zero_le _, rfl⟩

theorem ringOK_appendEvent {cfg : Config} {now : Int} {r : Room D V} {data : D} {vis : V}
    (h : RingOK r) : RingOK (appendEvent cfg now r data vis) := by
  obtain ⟨k, hk, htail⟩ := h.tail
  refine { seq_eq := ?_, tail := ?_ }
  · show r.seq + 1 = ((r.log ++ [(data, vis)]).length : Nat)
    rw [h.seq_eq]
    simp
  · -- before the trim the ring is the tail of the extended log from the same `k`
    let e : RingEntry D V := { seq := r.seq + 1, at' := now, data, vis }
    have hext : (r.ring ++ [e]).map RingEntry.recorded =
        (((r.log ++ [(data, vis)]).drop k).zipIdx k).map entryOf := by
      have hlast : RingEntry.recorded e = entryOf ((data, vis), r.log.length) := by
        show (r.seq + 1, data, vis) = ((r.log.length : Int) + 1, data, vis)
        rw [h.seq_eq]
      rw [List.map_append, htail, List.drop_append_of_le_length hk, List.zipIdx_append,
        List.map_append, List.length_drop, Nat.add_sub_cancel' hk, List.map_singleton, hlast]
      rfl
    obtain ⟨j, hj, htrim⟩ := trimRing_eq_drop cfg now (r.ring ++ [e])
    have hlen := congrArg List.length hext
    simp only [List.length_map, List.length_append, List.length_drop, List.length_zipIdx,
      List.length_singleton] at hlen hj
    refine ⟨k + j, ?_, ?_⟩
    · show k + j ≤ (r.log ++ [(data, vis)]).length
      rw [List.length_append, List.length_singleton]
      omega
    · show (trimRing cfg now (r.ring ++ [e])).map RingEntry.recorded = _
      rw [htrim, List.map_drop, hext, ← List.map_drop, drop_zipIdx, List.drop_drop]
      rfl

/-- The replay of a cursor the ring covers is every event after it. -/
theorem replayAfter_eq {r : Room D V} {s k : Nat}
    (htail : r.ring.map RingEntry.recorded = ((r.log.drop k).zipIdx k).map entryOf)
    (hks : k ≤ s) : replayAfter r s = (number r.epoch r.log).drop s := by
  obtain ⟨j, rfl⟩ := Nat.exists_eq_add_of_le hks
  have hfilter : (r.ring.map RingEntry.recorded).filter (fun e => ((k + j : Nat) : Int) < e.1) =
      ((r.log.zipIdx).drop (k + j)).map entryOf := by
    rw [htail, List.filter_map]
    have hcongr : ∀ p ∈ (r.log.drop k).zipIdx k,
        ((fun e : Int × D × V => decide (((k + j : Nat) : Int) < e.1)) ∘ entryOf) p =
          decide (k + j ≤ p.2) := fun p _ =>
      decide_eq_decide.mpr ⟨fun h => by simp only [entryOf] at h; omega,
        fun h => by simp only [entryOf]; omega⟩
    rw [List.filter_congr hcongr, filter_zipIdx_le, drop_zipIdx, drop_zipIdx, List.drop_drop,
      Nat.zero_add]
  have hrender : replayAfter r ((k + j : Nat) : Int) =
      ((r.ring.map RingEntry.recorded).filter fun e => ((k + j : Nat) : Int) < e.1).map
        fun e => { ID := eventID r.epoch e.1, data := e.2.1, vis := e.2.2 } := by
    rw [List.filter_map, List.map_map]
    rfl
  rw [hrender, hfilter, List.map_map, number, List.map_drop]
  rfl

/-- The four answers to a cursor of the current epoch: ahead of the room, at its head,
behind what the ring covers, or inside it. -/
theorem resume_cases (r : Room D V) {lastEventID : String} {s : Int}
    (hid : parseEventID lastEventID = some (r.epoch, s)) :
    (r.seq < s ∧ resume r lastEventID = ([], true)) ∨
    (s = r.seq ∧ resume r lastEventID = ([], false)) ∨
    (resume r lastEventID = ([], true)) ∨
    (s < r.seq ∧ (∃ oldest rest, r.ring = oldest :: rest ∧ oldest.seq ≤ s + 1) ∧
      resume r lastEventID = (replayAfter r s, false)) := by
  have hne : lastEventID ≠ "" := by
    rintro rfl
    exact absurd hid (by simp [parseEventID])
  unfold resume
  rw [if_neg hne, hid]
  simp only [ne_eq, not_true_eq_false, false_or]
  by_cases hahead : r.seq < s
  · exact .inl ⟨hahead, if_pos hahead⟩
  rw [if_neg hahead]
  by_cases heq : s = r.seq
  · exact .inr (.inl ⟨heq, if_pos heq⟩)
  rw [if_neg heq]
  cases hring : r.ring with
  | nil => exact .inr (.inr (.inl rfl))
  | cons oldest rest =>
    by_cases hold : s + 1 < oldest.seq
    · exact .inr (.inr (.inl (if_pos hold)))
    · exact .inr (.inr (.inr ⟨by omega, ⟨oldest, rest, rfl, by omega⟩, if_neg hold⟩))

/-- The oldest retained event is the first one the ring has not dropped. -/
theorem oldest_seq {r : Room D V} {k : Nat} {oldest : RingEntry D V}
    {rest : List (RingEntry D V)} (hring : r.ring = oldest :: rest)
    (htail : r.ring.map RingEntry.recorded = ((r.log.drop k).zipIdx k).map entryOf) :
    oldest.seq = (k : Int) + 1 := by
  have hhead := congrArg List.head? htail
  rw [hring] at hhead
  cases hdrop : r.log.drop k with
  | nil =>
    rw [hdrop] at hhead
    exact absurd hhead (by simp)
  | cons x xs =>
    rw [hdrop] at hhead
    simp only [List.map_cons, List.zipIdx_cons, List.head?_cons, Option.some.injEq] at hhead
    exact congrArg Prod.fst hhead

/-- `resume` without a reset, at a cursor of the current epoch, replays exactly the
events after the cursor. -/
theorem resume_exact {r : Room D V} (h : RingOK r) {lastEventID : String} {s : Int}
    (hid : parseEventID lastEventID = some (r.epoch, s))
    (hreset : (resume r lastEventID).2 = false) :
    0 ≤ s ∧ (resume r lastEventID).1 = (number r.epoch r.log).drop s.toNat := by
  rcases resume_cases r hid with ⟨-, heq⟩ | ⟨hs, heq⟩ | heq |
    ⟨-, ⟨oldest, rest, hring, hold⟩, heq⟩
  · rw [heq] at hreset
    exact absurd hreset (by simp)
  · -- at the head: nothing has been published after the cursor
    rw [heq, hs, h.seq_eq]
    refine ⟨Int.natCast_nonneg _, ?_⟩
    rw [Int.toNat_natCast, List.drop_of_length_le (by rw [length_number])]
  · rw [heq] at hreset
    exact absurd hreset (by simp)
  · obtain ⟨k, -, htail⟩ := h.tail
    have hk := oldest_seq hring htail
    have hs : ((s.toNat : Nat) : Int) = s := Int.toNat_of_nonneg (by omega)
    refine ⟨by omega, ?_⟩
    rw [heq, ← replayAfter_eq htail (s := s.toNat) (by omega), hs]

/-- When an event after the cursor has left the ring, the answer is `reset`. -/
theorem resume_reset_of_lost {r : Room D V} (h : RingOK r) {lastEventID : String} {s q : Int}
    (hid : parseEventID lastEventID = some (r.epoch, s)) (hq : s < q) (hq' : q ≤ r.seq)
    (hlost : q ∉ r.ring.map RingEntry.seq) : (resume r lastEventID).2 = true := by
  rcases resume_cases r hid with ⟨-, heq⟩ | ⟨hs, -⟩ | heq |
    ⟨-, ⟨oldest, rest, hring, hold⟩, -⟩
  · rw [heq]
  · omega
  · rw [heq]
  · -- the cursor is inside the ring, so every event after it is retained
    obtain ⟨k, hk, htail⟩ := h.tail
    have hkeq := oldest_seq hring htail
    refine absurd ?_ hlost
    have hseq : r.ring.map RingEntry.seq =
        ((r.log.drop k).zipIdx k).map fun p => (p.2 : Int) + 1 := by
      have := congrArg (List.map Prod.fst) htail
      rwa [List.map_map, List.map_map] at this
    have hqlen : q ≤ r.log.length := h.seq_eq ▸ hq'
    have hlt : q.toNat - 1 - k < (r.log.drop k).length := by
      rw [List.length_drop]
      omega
    rw [hseq]
    refine List.mem_map.mpr ⟨((r.log.drop k)[q.toNat - 1 - k], k + (q.toNat - 1 - k)), ?_, ?_⟩
    · rw [List.mk_add_mem_zipIdx_iff_getElem?]
      exact List.getElem?_eq_getElem hlt
    · show ((k + (q.toNat - 1 - k) : Nat) : Int) + 1 = q
      omega

/-! ## What one operation does to a hub -/

/-- The hub's own bookkeeping: every ring is in order, and subscribers are registered
under names already handed out. -/
structure HubOK (h : Hub D V) : Prop where
  rings : ∀ id r, h.rooms id = some r → RingOK r
  named : ∀ e ∈ h.subs, e.2 < h.next

theorem hubOK_new (cfg : Config) : HubOK (newHub cfg : Hub D V) :=
  { rings := fun _ _ h => (nomatch h), named := fun _ h => (nomatch h) }

/-- `roomLocked` finds or makes one room and touches nothing else. -/
structure Locked (h : Hub D V) (roomID : String) (h₁ : Hub D V) (r : Room D V) : Prop where
  subs : h₁.subs = h.subs
  clients : h₁.clients = h.clients
  next : h₁.next = h.next
  room : h₁.rooms roomID = some r
  others : ∀ id, id ≠ roomID → h₁.rooms id = h.rooms id
  found : (∃ r₀, h.rooms roomID = some r₀ ∧ r = r₀) ∨
    (h.rooms roomID = none ∧ ∃ epoch, r = { epoch, seq := 0, ring := [], log := [] })

theorem roomLocked_spec {h h₁ : Hub D V} {epochOf : Option Int} {roomID : String}
    {r : Room D V} (hl : roomLocked h epochOf roomID = some (h₁, r)) :
    Locked h roomID h₁ r := by
  unfold roomLocked at hl
  cases hroom : h.rooms roomID with
  | some r₀ =>
    rw [hroom] at hl
    obtain ⟨rfl, rfl⟩ := Prod.mk.inj (Option.some.inj hl)
    exact { subs := rfl, clients := rfl, next := rfl, room := hroom,
            others := fun _ _ => rfl, found := .inl ⟨_, hroom, rfl⟩ }
  | none =>
    rw [hroom] at hl
    cases epochOf with
    | none => exact nomatch hl
    | some epoch =>
      obtain ⟨rfl, rfl⟩ := Prod.mk.inj (Option.some.inj hl)
      exact { subs := rfl, clients := rfl, next := rfl, room := setRoom_rooms_self ..,
              others := fun _ hne => setRoom_rooms_other _ _ hne,
              found := .inr ⟨hroom, epoch, rfl⟩ }

theorem Locked.ringOK {h h₁ : Hub D V} {roomID : String} {r : Room D V}
    (hl : Locked h roomID h₁ r) (hok : HubOK h) : RingOK r := by
  rcases hl.found with ⟨r₀, hr₀, rfl⟩ | ⟨-, epoch, rfl⟩
  · exact hok.rings _ _ hr₀
  · exact ringOK_new epoch

theorem Locked.hubOK {h h₁ : Hub D V} {roomID : String} {r : Room D V}
    (hl : Locked h roomID h₁ r) (hok : HubOK h) : HubOK h₁ := by
  refine { rings := fun id r' hr' => ?_, named := fun e he => ?_ }
  · by_cases hid : id = roomID
    · subst hid
      rw [hl.room] at hr'
      exact Option.some.inj hr' ▸ hl.ringOK hok
    · rw [hl.others id hid] at hr'
      exact hok.rings _ _ hr'
  · rw [hl.next]
    exact hok.named e (hl.subs ▸ he)

/-- What `publish` does when it does not fail: it locks the room, appends a durable event
to it, and fans the frame out. -/
theorem publish_cases (h : Hub D V) (epochOf : Option Int) (now : Int) (roomID : String)
    (data : Option D) (vis : V) (ephemeral : Bool) :
    publish h epochOf now roomID data vis ephemeral = (h, false) ∨
    ∃ d h₁ r, data = some d ∧ Locked h roomID h₁ r ∧
      publish h epochOf now roomID data vis ephemeral =
        (if ephemeral then (fanOut h₁ roomID { ID := "", data := d, vis }, true)
         else (fanOut (setRoom h₁ roomID (appendEvent h₁.cfg now r d vis)) roomID
            { ID := eventID r.epoch (r.seq + 1), data := d, vis }, true)) := by
  unfold publish
  cases data with
  | none => exact .inl rfl
  | some d =>
    cases hl : roomLocked h epochOf roomID with
    | none => exact .inl rfl
    | some p =>
      obtain ⟨h₁, r⟩ := p
      exact .inr ⟨d, h₁, r, rfl, roomLocked_spec hl, rfl⟩

/-- What `Subscribe` does when it does not fail. -/
theorem subscribe_spec {h h' : Hub D V} {epochOf : Option Int} {roomID lastEventID : String}
    {ans : Answer D V} (hs : subscribe h epochOf roomID lastEventID = (h', some ans)) :
    ∃ h₁ r, Locked h roomID h₁ r ∧ ans.sub = h.next ∧
      ans.replay = (resume r lastEventID).1 ∧ ans.reset = (resume r lastEventID).2 ∧
      h'.rooms = h₁.rooms ∧ h'.subs = h₁.subs ++ [(roomID, h.next)] ∧
      h'.clients h.next = { ch := [], quit := false, sent := [] } ∧
      h'.next = h.next + 1 := by
  unfold subscribe at hs
  cases hl : roomLocked h epochOf roomID with
  | none =>
    rw [hl] at hs
    exact nomatch (Prod.mk.inj hs).2
  | some p =>
    obtain ⟨h₁, r⟩ := p
    have hspec := roomLocked_spec hl
    rw [hl] at hs
    obtain ⟨rfl, hans⟩ := Prod.mk.inj hs
    obtain rfl := Option.some.inj hans
    have hnext := hspec.next
    refine ⟨h₁, r, hspec, hnext, rfl, rfl, rfl, ?_, ?_, ?_⟩
    · show h₁.subs ++ [(roomID, h₁.next)] = _
      rw [hnext]
    · show (if h.next = h₁.next then _ else h₁.clients h.next) = _
      rw [if_pos hnext.symm]
    · show h₁.next + 1 = _
      rw [hnext]

theorem hubOK_setRoom {h : Hub D V} {roomID : String} {r : Room D V} (hok : HubOK h)
    (hr : RingOK r) : HubOK (setRoom h roomID r) := by
  refine { rings := fun id r' hr' => ?_, named := hok.named }
  by_cases hid : id = roomID
  · rw [hid, setRoom_rooms_self] at hr'
    exact Option.some.inj hr' ▸ hr
  · rw [setRoom_rooms_other _ _ hid] at hr'
    exact hok.rings _ _ hr'

theorem hubOK_fanOut {h : Hub D V} {roomID : String} {f : Frame D V} (hok : HubOK h) :
    HubOK (fanOut h roomID f) :=
  { rings := hok.rings, named := fun e he => hok.named e (List.mem_of_mem_filter he) }

theorem hubOK_publish {h : Hub D V} {epochOf : Option Int} {now : Int} {roomID : String}
    {data : Option D} {vis : V} {ephemeral : Bool} (hok : HubOK h) :
    HubOK (publish h epochOf now roomID data vis ephemeral).1 := by
  rcases publish_cases h epochOf now roomID data vis ephemeral with heq | ⟨d, h₁, r, -, hl, heq⟩
  · rw [heq]
    exact hok
  · rw [heq]
    cases ephemeral with
    | true => exact hubOK_fanOut (hl.hubOK hok)
    | false =>
      exact hubOK_fanOut (hubOK_setRoom (hl.hubOK hok) (ringOK_appendEvent (hl.ringOK hok)))

/-- Every operation keeps the hub's bookkeeping. -/
theorem hubOK_exec {h : Hub D V} (hok : HubOK h) (op : Op D V) : HubOK (exec h op) := by
  cases op with
  | publish => exact hubOK_publish hok
  | publishEphemeral => exact hubOK_publish hok
  | subscribe epochOf roomID lastEventID =>
    show HubOK (subscribe h epochOf roomID lastEventID).1
    cases hs : subscribe h epochOf roomID lastEventID with
    | mk h' ans =>
      cases ans with
      | none =>
        have : h' = h := by
          unfold subscribe at hs
          cases hl : roomLocked h epochOf roomID with
          | none => rw [hl] at hs; exact (Prod.mk.inj hs).1.symm
          | some p => rw [hl] at hs; exact nomatch (Prod.mk.inj hs).2
        rw [this]
        exact hok
      | some ans =>
        obtain ⟨h₁, r, hl, -, -, -, hrooms, hsubs, -, hnext⟩ := subscribe_spec hs
        have hok₁ := hl.hubOK hok
        refine { rings := fun id r' hr' => hok₁.rings id r' (hrooms ▸ hr'),
                 named := fun e he => ?_ }
        show e.2 < h'.next
        rw [hnext]
        rcases List.mem_append.mp (hsubs ▸ he) with hold | hnew
        · exact Nat.lt_succ_of_lt (hl.next ▸ hok₁.named e hold)
        · rw [List.mem_singleton.mp hnew]
          exact Nat.lt_succ_self _
  | unsubscribe =>
    exact { rings := hok.rings, named := fun e he => hok.named e (List.mem_of_mem_filter he) }
  | closeAll => exact { rings := hok.rings, named := fun _ he => (nomatch he) }
  | drain => exact { rings := hok.rings, named := hok.named }

/-! ## The events of a run -/

/-- The durable events published to a room so far. -/
def logOf (h : Hub D V) (roomID : String) : List (D × V) :=
  ((h.rooms roomID).map Room.log).getD []

/-- The durable event an operation adds to a room: a `Publish` to it that marshals and
whose room can be locked. -/
def durableOf (roomID : String) (h : Hub D V) : Op D V → List (D × V)
  | .publish epochOf _ id (some data) vis =>
    if id = roomID ∧ (roomLocked h epochOf id).isSome then [(data, vis)] else []
  | _ => []

/-- The durable events published to a room by the operations of a run. -/
def publishedTo (roomID : String) : Hub D V → List (Op D V) → List (D × V)
  | _, [] => []
  | h, op :: ops => durableOf roomID h op ++ publishedTo roomID (exec h op) ops

theorem Locked.logOf {h h₁ : Hub D V} {id : String} {r : Room D V} (hl : Locked h id h₁ r)
    (roomID : String) : logOf h₁ roomID = logOf h roomID := by
  by_cases hid : roomID = id
  · subst hid
    rcases hl.found with ⟨r₀, hr₀, rfl⟩ | ⟨hnone, epoch, rfl⟩
    · rw [Sse.logOf, hl.room, Sse.logOf, hr₀]
    · rw [Sse.logOf, hl.room, Sse.logOf, hnone]
      rfl
  · rw [Sse.logOf, hl.others _ hid, Sse.logOf]

/-- An operation adds exactly its durable event to a room's log. -/
theorem logOf_exec (roomID : String) (h : Hub D V) (op : Op D V) :
    logOf (exec h op) roomID = logOf h roomID ++ durableOf roomID h op := by
  cases op with
  | publish epochOf now id data vis =>
    cases data with
    | none => exact (List.append_nil _).symm
    | some d =>
      show logOf (publish h epochOf now id (some d) vis false).1 roomID = _
      cases hl : roomLocked h epochOf id with
      | none => simp [publish, durableOf, hl]
      | some p =>
        obtain ⟨h₁, r⟩ := p
        have hspec := roomLocked_spec hl
        simp only [publish, hl, durableOf, Option.isSome_some, and_true]
        rw [← hspec.logOf roomID]
        show logOf (setRoom h₁ id (appendEvent h₁.cfg now r d vis)) roomID = _
        by_cases hid : id = roomID
        · subst hid
          rw [if_pos rfl, logOf, setRoom_rooms_self, logOf, hspec.room]
          rfl
        · rw [if_neg hid, List.append_nil, logOf, setRoom_rooms_other _ _ (Ne.symm hid), logOf]
  | publishEphemeral epochOf id data vis =>
    show logOf (publish h epochOf 0 id data vis true).1 roomID = _ ++ []
    rw [List.append_nil]
    rcases publish_cases h epochOf 0 id data vis true with heq | ⟨d, h₁, r, -, hl, heq⟩
    · rw [heq]
    · rw [heq, ← hl.logOf roomID]
      rfl
  | subscribe epochOf id lastEventID =>
    show logOf (subscribe h epochOf id lastEventID).1 roomID = _ ++ []
    rw [List.append_nil, subscribe]
    cases hl : roomLocked h epochOf id with
    | none => rfl
    | some p =>
      rw [← (roomLocked_spec hl).logOf roomID]
      rfl
  | unsubscribe => exact (List.append_nil _).symm
  | closeAll => exact (List.append_nil _).symm
  | drain => exact (List.append_nil _).symm

/-- The hub is deterministic: a run leads where its operations do. -/
theorem Run.eq_foldl {h t : Hub D V} {es : List (Op D V)} (hrun : Run Step always h es t) :
    t = es.foldl exec h := by
  induction hrun with
  | nil => rfl
  | snoc _ _ hstep ih =>
    rw [List.foldl_append, ← ih]
    exact hstep.symm

/-- A room's log is what the run published to it. -/
theorem logOf_foldl (roomID : String) (es : List (Op D V)) :
    ∀ h : Hub D V, logOf (es.foldl exec h) roomID = logOf h roomID ++ publishedTo roomID h es := by
  induction es with
  | nil => exact fun h => (List.append_nil _).symm
  | cons op es ih =>
    intro h
    rw [List.foldl_cons, ih, logOf_exec, List.append_assoc]
    rfl

/-! ## A resumed subscriber along a run -/

/-- The durable frames placed on a subscriber's channel until the hub closed it. -/
def placed (h : Hub D V) (sub : Nat) : List (Frame D V) :=
  (h.clients sub).sent.filter Frame.durable

/-- Subscriber `sub` of room `roomID`, resumed after event `s` with `replay`: it is in no
other room; and while it is not closed, it is in that one and has been given every event
after `s`. -/
structure Live (roomID : String) (sub : Nat) (epoch : Int) (s : Nat)
    (replay : List (Frame D V)) (h : Hub D V) : Prop where
  fresh : sub < h.next
  only : ∀ id, (id, sub) ∈ h.subs → id = roomID
  room : ∃ r, h.rooms roomID = some r ∧ r.epoch = epoch ∧ s ≤ r.log.length ∧
    ((h.clients sub).quit = false →
      replay ++ placed h sub = (number epoch r.log).drop s)
  registered : (h.clients sub).quit = false → (roomID, sub) ∈ h.subs

section Live

variable {roomID : String} {sub : Nat} {epoch : Int} {s : Nat} {replay : List (Frame D V)}
  {h : Hub D V}

/-- Locking a room, its own or another, changes nothing a subscriber sees. -/
theorem Live.locked (hlive : Live roomID sub epoch s replay h) {id : String} {h₁ : Hub D V}
    {r : Room D V} (hl : Locked h id h₁ r) : Live roomID sub epoch s replay h₁ := by
  obtain ⟨r₀, hr₀, hep, hlen, hspl⟩ := hlive.room
  have hroom : h₁.rooms roomID = some r₀ := by
    by_cases hid : roomID = id
    · subst hid
      rcases hl.found with ⟨r₁, hr₁, rfl⟩ | ⟨hnone, -⟩
      · rw [hl.room, ← hr₁, hr₀]
      · rw [hr₀] at hnone
        exact nomatch hnone
    · rw [hl.others _ hid, hr₀]
  have hplaced : placed h₁ sub = placed h sub := by rw [placed, hl.clients, placed]
  exact
    { fresh := hl.next ▸ hlive.fresh
      only := fun id' hid' => hlive.only id' (hl.subs ▸ hid')
      room := ⟨r₀, hroom, hep, hlen, fun hq => hplaced ▸ hspl (hl.clients ▸ hq)⟩
      registered := fun hq => hl.subs ▸ hlive.registered (hl.clients ▸ hq) }

/-- A frame fanned out in another room passes the subscriber by. -/
theorem Live.fanOut_other (hlive : Live roomID sub epoch s replay h) {id : String}
    (hid : id ≠ roomID) (f : Frame D V) : Live roomID sub epoch s replay (fanOut h id f) := by
  have hnot : (id, sub) ∉ h.subs := fun hmem => hid (hlive.only id hmem)
  have hclient : (fanOut h id f).clients sub = h.clients sub := if_neg hnot
  obtain ⟨r, hr, hep, hlen, hspl⟩ := hlive.room
  refine { fresh := hlive.fresh, only := fun id' hid' => ?_, room := ?_, registered := ?_ }
  · exact hlive.only id' (List.mem_of_mem_filter hid')
  · exact ⟨r, hr, hep, hlen, fun hq => by
      rw [placed, hclient] at *
      exact hspl hq⟩
  · intro hq
    rw [hclient] at hq
    exact List.mem_filter.mpr ⟨hlive.registered hq, by simp [Ne.symm hid]⟩

/-- A frame fanned out in the subscriber's own room: while the subscriber stays open it is
the last frame placed. -/
theorem Live.fanOut_self (hlive : Live roomID sub epoch s replay h) (f : Frame D V)
    (hopen : ((fanOut h roomID f).clients sub).quit = false) :
    (h.clients sub).quit = false ∧ (roomID, sub) ∈ (fanOut h roomID f).subs ∧
      ((fanOut h roomID f).clients sub).sent = (h.clients sub).sent ++ [f] := by
  by_cases hmem : (roomID, sub) ∈ h.subs
  · have hclient : (fanOut h roomID f).clients sub =
        if full h.cfg (h.clients sub) then (h.clients sub).close
        else (h.clients sub).push f := if_pos hmem
    rw [hclient] at hopen ⊢
    by_cases hfull : full h.cfg (h.clients sub) = true
    · rw [if_pos hfull] at hopen
      exact nomatch hopen
    · rw [if_neg hfull] at hopen ⊢
      have hq : (h.clients sub).quit = false := hopen
      refine ⟨hq, List.mem_filter.mpr ⟨hmem, by simp [hfull]⟩, ?_⟩
      show (if (h.clients sub).quit then _ else _) = _
      rw [hq]
      rfl
  · have hclient : (fanOut h roomID f).clients sub = h.clients sub := if_neg hmem
    rw [hclient] at hopen
    exact absurd (hlive.registered hopen) hmem

/-- An ephemeral frame does not disturb the splice. -/
theorem Live.fanOut_ephemeral (hlive : Live roomID sub epoch s replay h) (id : String)
    (d : D) (vis : V) :
    Live roomID sub epoch s replay (fanOut h id { ID := "", data := d, vis }) := by
  by_cases hid : id = roomID
  · subst hid
    obtain ⟨r, hr, hep, hlen, hspl⟩ := hlive.room
    refine { fresh := hlive.fresh,
             only := fun id' hid' => hlive.only id' (List.mem_of_mem_filter hid'),
             room := ⟨r, hr, hep, hlen, fun hq => ?_⟩,
             registered := fun hq => (hlive.fanOut_self _ hq).2.1 }
    obtain ⟨hq₀, -, hsent⟩ := hlive.fanOut_self _ hq
    rw [placed, hsent, List.filter_append]
    simpa [Frame.durable, placed] using hspl hq₀
  · exact hlive.fanOut_other hid _

/-- A durable event extends the splice by itself, in the subscriber's room. -/
theorem Live.fanOut_durable (hlive : Live roomID sub epoch s replay h) (hok : HubOK h)
    {id : String} {r : Room D V} (hr : h.rooms id = some r) (now : Int) (d : D) (vis : V) :
    Live roomID sub epoch s replay
      (fanOut (setRoom h id (appendEvent h.cfg now r d vis)) id
        { ID := eventID r.epoch (r.seq + 1), data := d, vis }) := by
  by_cases hid : id = roomID
  · subst hid
    obtain ⟨r₀, hr₀, hep, hlen, hspl⟩ := hlive.room
    obtain rfl : r = r₀ := by
      rw [hr] at hr₀
      exact Option.some.inj hr₀
    have hset : Live id sub epoch s replay h := hlive
    have hopen : ∀ f : Frame D V,
        ((fanOut (setRoom h id (appendEvent h.cfg now r d vis)) id f).clients sub).quit = false →
        ((fanOut h id f).clients sub).quit = false := fun _ hq => hq
    refine { fresh := hlive.fresh,
             only := fun id' hid' => hlive.only id' (List.mem_of_mem_filter hid'),
             room := ⟨appendEvent h.cfg now r d vis, setRoom_rooms_self .., hep, ?_, fun hq => ?_⟩,
             registered := fun hq => (hlive.fanOut_self _ (hopen _ hq)).2.1 }
    · show s ≤ (r.log ++ [(d, vis)]).length
      rw [List.length_append]
      exact Nat.le_add_right_of_le hlen
    · obtain ⟨hq₀, -, hsent⟩ := hlive.fanOut_self _ (hopen _ hq)
      have hdur : Frame.durable
          ({ ID := eventID r.epoch (r.seq + 1), data := d, vis } : Frame D V) = true :=
        decide_eq_true (eventID_ne_empty _ _)
      have hplaced : placed (fanOut (setRoom h id (appendEvent h.cfg now r d vis)) id
          { ID := eventID r.epoch (r.seq + 1), data := d, vis }) sub =
          placed h sub ++ [{ ID := eventID r.epoch (r.seq + 1), data := d, vis }] := by
        show List.filter _ ((fanOut h id _).clients sub).sent = _
        rw [hsent, List.filter_append, List.filter_cons_of_pos hdur]
        rfl
      rw [hplaced, ← List.append_assoc, hspl hq₀]
      show _ = (number epoch (r.log ++ [(d, vis)])).drop s
      rw [number_append_singleton, List.drop_append_of_le_length (by rwa [length_number]),
        hep, (hok.rings _ _ hr).seq_eq]
  · -- another room: its new event is not this subscriber's business
    have hset : Live roomID sub epoch s replay (setRoom h id (appendEvent h.cfg now r d vis)) := by
      obtain ⟨r₀, hr₀, hrest⟩ := hlive.room
      exact { fresh := hlive.fresh, only := hlive.only,
              room := ⟨r₀, by rw [setRoom_rooms_other _ _ (Ne.symm hid), hr₀], hrest⟩,
              registered := hlive.registered }
    exact hset.fanOut_other hid _

theorem Live.publish (hlive : Live roomID sub epoch s replay h) (hok : HubOK h)
    (epochOf : Option Int) (now : Int) (id : String) (data : Option D) (vis : V)
    (ephemeral : Bool) :
    Live roomID sub epoch s replay (publish h epochOf now id data vis ephemeral).1 := by
  rcases publish_cases h epochOf now id data vis ephemeral with heq | ⟨d, h₁, r, -, hl, heq⟩
  · rw [heq]
    exact hlive
  · rw [heq]
    cases ephemeral with
    | true => exact (hlive.locked hl).fanOut_ephemeral id d vis
    | false => exact (hlive.locked hl).fanOut_durable (hl.hubOK hok) hl.room now d vis

/-- A later `Subscribe` registers another subscriber and leaves this one alone. -/
theorem Live.subscribe (hlive : Live roomID sub epoch s replay h) (epochOf : Option Int)
    (id lastEventID : String) :
    Live roomID sub epoch s replay (subscribe h epochOf id lastEventID).1 := by
  unfold Sse.subscribe
  cases hl : roomLocked h epochOf id with
  | none => exact hlive
  | some p =>
    obtain ⟨h₁, r⟩ := p
    have hlock := roomLocked_spec hl
    have hlive₁ := hlive.locked hlock
    have hne : sub ≠ h₁.next := Nat.ne_of_lt hlive₁.fresh
    obtain ⟨r₀, hr₀, hep, hlen, hspl⟩ := hlive₁.room
    have hclient : ∀ c : Subscriber D V,
        (if sub = h₁.next then c else h₁.clients sub) = h₁.clients sub := fun _ => if_neg hne
    refine { fresh := Nat.lt_succ_of_lt hlive₁.fresh, only := fun id' hid' => ?_,
             room := ⟨r₀, hr₀, hep, hlen, fun hq => ?_⟩, registered := fun hq => ?_ }
    · rcases List.mem_append.mp hid' with hold | hnew
      · exact hlive₁.only id' hold
      · exact absurd (congrArg Prod.snd (List.mem_singleton.mp hnew)) hne
    · show replay ++ List.filter _ (if sub = h₁.next then _ else h₁.clients sub).sent = _
      rw [hclient]
      exact hspl (by simpa [hne] using hq)
    · exact List.mem_append.mpr (.inl (hlive₁.registered (by simpa [hne] using hq)))

/-- Every operation preserves `Live`. -/
theorem Live.exec (hlive : Live roomID sub epoch s replay h) (hok : HubOK h) (op : Op D V) :
    Live roomID sub epoch s replay (exec h op) := by
  obtain ⟨r, hr, hep, hlen, hspl⟩ := hlive.room
  cases op with
  | publish => exact hlive.publish hok ..
  | publishEphemeral => exact hlive.publish hok ..
  | subscribe => exact hlive.subscribe ..
  | unsubscribe id i =>
    by_cases hi : sub = i
    · -- closed: nothing is promised any more
      have hquit : ((unsubscribe h id i).clients sub).quit = true := by
        show (if sub = i then _ else _ : Subscriber D V).quit = true
        rw [if_pos hi]
        rfl
      refine { fresh := hlive.fresh,
               only := fun id' hid' => hlive.only id' (List.mem_of_mem_filter hid'),
               room := ⟨r, hr, hep, hlen, fun hq => ?_⟩, registered := fun hq => ?_ }
      · exact absurd (hquit.symm.trans hq) (by decide)
      · exact absurd (hquit.symm.trans hq) (by decide)
    · have hclient : (unsubscribe h id i).clients sub = h.clients sub := if_neg hi
      refine { fresh := hlive.fresh,
               only := fun id' hid' => hlive.only id' (List.mem_of_mem_filter hid'),
               room := ⟨r, hr, hep, hlen, fun hq => ?_⟩, registered := fun hq => ?_ }
      · show replay ++ placed (unsubscribe h id i) sub = _
        rw [placed, hclient]
        exact hspl (hclient ▸ hq)
      · refine List.mem_filter.mpr ⟨hlive.registered (hclient ▸ hq), ?_⟩
        simp [hi]
  | closeAll =>
    have hnotopen : ((closeAll h).clients sub).quit ≠ false := by
      intro hq
      by_cases hmem : sub ∈ h.subs.map Prod.snd
      · have hclient : (closeAll h).clients sub = (h.clients sub).close := if_pos hmem
        rw [hclient] at hq
        exact nomatch hq
      · have hclient : (closeAll h).clients sub = h.clients sub := if_neg hmem
        rw [hclient] at hq
        exact hmem (List.mem_map.mpr ⟨_, hlive.registered hq, rfl⟩)
    exact { fresh := hlive.fresh, only := fun _ hid' => (nomatch hid'),
            room := ⟨r, hr, hep, hlen, fun hq => absurd hq hnotopen⟩,
            registered := fun hq => absurd hq hnotopen }
  | drain i =>
    have hsame : ((drain h i).clients sub).sent = (h.clients sub).sent ∧
        ((drain h i).clients sub).quit = (h.clients sub).quit := by
      show (if sub = i then _ else _ : Subscriber D V).sent = _ ∧
        (if sub = i then _ else _ : Subscriber D V).quit = _
      split <;> exact ⟨rfl, rfl⟩
    refine { fresh := hlive.fresh, only := hlive.only,
             room := ⟨r, hr, hep, hlen, fun hq => ?_⟩,
             registered := fun hq => hlive.registered (hsame.2 ▸ hq) }
    show replay ++ placed (drain h i) sub = _
    rw [placed, hsame.1]
    exact hspl (hsame.2 ▸ hq)

/-- A subscriber resumed without a reset starts out with everything up to now. -/
theorem Live.start {h h' : Hub D V} (hok : HubOK h) {epochOf : Option Int}
    {lastEventID : String} {ans : Answer D V}
    (hsub : Sse.subscribe h epochOf roomID lastEventID = (h', some ans)) {r : Room D V}
    {c : Int}
    (hroom : h'.rooms roomID = some r) (hid : parseEventID lastEventID = some (r.epoch, c))
    (hreset : ans.reset = false) :
    Live roomID ans.sub r.epoch c.toNat ans.replay h' := by
  obtain ⟨h₁, r₁, hl, hans, hreplay, hres, hrooms, hsubs, hclient, hnext⟩ := subscribe_spec hsub
  obtain rfl : r₁ = r := by
    rw [hrooms, hl.room] at hroom
    exact Option.some.inj hroom
  have hring := hl.ringOK hok
  obtain ⟨-, hexact⟩ := resume_exact hring hid (hres ▸ hreset)
  have hfresh : ∀ id, (id, h.next) ∉ h₁.subs := fun id hmem =>
    absurd ((hl.hubOK hok).named _ hmem) (by rw [hl.next]; exact Nat.lt_irrefl _)
  have hplaced : placed h' ans.sub = [] := by rw [placed, hans, hclient]; rfl
  have hcursor : c ≤ r₁.seq := by
    rcases resume_cases r₁ hid with ⟨-, heq⟩ | ⟨hc, -⟩ | heq | ⟨hc, -⟩
    · rw [hres, heq] at hreset
      exact nomatch hreset
    · exact Int.le_of_eq hc
    · rw [hres, heq] at hreset
      exact nomatch hreset
    · exact Int.le_of_lt hc
  refine { fresh := ?_, only := fun id hmem => ?_, room := ⟨r₁, hroom, rfl, ?_, fun _ => ?_⟩,
           registered := fun _ => ?_ }
  · rw [hans, hnext]
    exact Nat.lt_succ_self _
  · rw [hsubs, hans] at hmem
    rcases List.mem_append.mp hmem with hold | hnew
    · exact absurd hold (hfresh id)
    · exact congrArg Prod.fst (List.mem_singleton.mp hnew)
  · have := hring.seq_eq
    omega
  · rw [hplaced, List.append_nil, hreplay, hexact]
  · rw [hsubs, hans]
    exact List.mem_append.mpr (.inr (List.mem_singleton.mpr rfl))

/-- A frame fanned out to a subscriber that is closed by it, or was before, is not placed. -/
theorem placed_fanOut_of_quit (id : String) (f : Frame D V)
    (hquit : ((fanOut h id f).clients sub).quit = true) :
    placed (fanOut h id f) sub = placed h sub := by
  by_cases hmem : (id, sub) ∈ h.subs
  · have hclient : (fanOut h id f).clients sub =
        if full h.cfg (h.clients sub) then (h.clients sub).close
        else (h.clients sub).push f := if_pos hmem
    rw [placed, hclient, placed]
    rw [hclient] at hquit
    by_cases hfull : full h.cfg (h.clients sub) = true
    · rw [if_pos hfull]
      rfl
    · rw [if_neg hfull] at hquit ⊢
      have hq : (h.clients sub).quit = true := hquit
      show List.filter _ (if (h.clients sub).quit then _ else _) = _
      rw [if_pos hq]
  · have hclient : (fanOut h id f).clients sub = h.clients sub := if_neg hmem
    rw [placed, hclient, placed]

/-- An operation after which the subscriber is closed has placed nothing on its channel. -/
theorem placed_exec_of_quit (hfresh : sub < h.next) (op : Op D V)
    (hquit : ((exec h op).clients sub).quit = true) :
    placed (exec h op) sub = placed h sub := by
  have hpublish : ∀ (epochOf : Option Int) now (id : String) (data : Option D) (vis : V) eph,
      ((publish h epochOf now id data vis eph).1.clients sub).quit = true →
      placed (publish h epochOf now id data vis eph).1 sub = placed h sub := by
    intro epochOf now id data vis eph hq
    rcases publish_cases h epochOf now id data vis eph with heq | ⟨d, h₁, r, -, hl, heq⟩
    · rw [heq]
    · have hsame : ∀ g : Hub D V, g.clients = h₁.clients → placed g sub = placed h sub :=
        fun g hg => by rw [placed, hg, hl.clients, placed]
      rw [heq] at hq ⊢
      cases eph with
      | true => rw [if_pos rfl] at hq ⊢; exact (placed_fanOut_of_quit _ _ hq).trans (hsame _ rfl)
      | false => exact (placed_fanOut_of_quit _ _ hq).trans (hsame _ rfl)
  cases op with
  | publish => exact hpublish _ _ _ _ _ _ hquit
  | publishEphemeral => exact hpublish _ _ _ _ _ _ hquit
  | subscribe epochOf id lastEventID =>
    show placed (Sse.subscribe h epochOf id lastEventID).1 sub = _
    rw [Sse.subscribe]
    cases hl : roomLocked h epochOf id with
    | none => rfl
    | some p =>
      have hspec := roomLocked_spec hl
      have hne : sub ≠ p.1.next := by
        rw [hspec.next]
        exact Nat.ne_of_lt hfresh
      show List.filter _ (if sub = p.1.next then _ else p.1.clients sub : Subscriber D V).sent = _
      rw [if_neg hne, hspec.clients, placed]
  | unsubscribe id i =>
    show List.filter _ (if sub = i then _ else _ : Subscriber D V).sent = _
    split <;> rfl
  | closeAll =>
    show List.filter _ (if _ then _ else _ : Subscriber D V).sent = _
    split <;> rfl
  | drain i =>
    show List.filter _ (if sub = i then _ else _ : Subscriber D V).sent = _
    split <;> rfl

end Live

/-! ## Main result -/

/-- **Replay is gap-free and duplicate-free.** In every run of the hub, take any
`Subscribe` that presents an id of its room's epoch and sequence `s`. If it does not answer
`reset`, then as long as the subscriber is open the replay followed by the frames with an id
placed on its channel is the list of all events published to the room, numbered from 1, less
the first `s`; and an operation that closes it, or comes later, places nothing more. If an
event after `s` is not on the ring any more, the answer is `reset`. -/
theorem subscribe_replay_exact (cfg : Config) {es : List (Op D V)} {h : Hub D V}
    (hreach : Run Step always (newHub cfg) es h) (epochOf : Option Int)
    (roomID lastEventID : String) {h' : Hub D V} {ans : Answer D V} {r : Room D V} {s : Int}
    (hsub : subscribe h epochOf roomID lastEventID = (h', some ans))
    (hroom : h'.rooms roomID = some r) (hid : parseEventID lastEventID = some (r.epoch, s)) :
    (ans.reset = false → ∀ fs t, Run Step always h' fs t →
      ((t.clients ans.sub).quit = false →
        ans.replay ++ placed t ans.sub =
          (number r.epoch (publishedTo roomID (newHub cfg)
            (es ++ .subscribe epochOf roomID lastEventID :: fs))).drop s.toNat) ∧
      ∀ op, ((exec t op).clients ans.sub).quit = true →
        placed (exec t op) ans.sub = placed t ans.sub) ∧
    ((∃ q, s < q ∧ q ≤ r.seq ∧ q ∉ r.ring.map RingEntry.seq) → ans.reset = true) := by
  have hok : HubOK h := hreach.invariant (hubOK_new cfg)
    fun _ op _ hok _ hstep => hstep ▸ hubOK_exec hok op
  have hstep : Step h (.subscribe epochOf roomID lastEventID) h' := congrArg Prod.fst hsub
  refine ⟨fun hreset fs t hrun => ?_, ?_⟩
  · have hok' : HubOK h' := hstep ▸ hubOK_exec hok _
    let Inv (g : Hub D V) : Prop := HubOK g ∧ Live roomID ans.sub r.epoch s.toNat ans.replay g
    have hkeep : ∀ g op g', Inv g → always g op → Step g op g' → Inv g' := by
      rintro g op - ⟨hok, hlive⟩ - rfl
      exact ⟨hubOK_exec hok op, hlive.exec hok op⟩
    have hinv : Inv t := hrun.invariant ⟨hok', Live.start hok hsub hroom hid hreset⟩ hkeep
    refine ⟨fun hopen => ?_, fun op hquit => placed_exec_of_quit hinv.2.fresh op hquit⟩
    obtain ⟨r', hr', hep, -, hspl⟩ := hinv.2.room
    have hlog : r'.log = publishedTo roomID (newHub cfg)
        (es ++ .subscribe epochOf roomID lastEventID :: fs) := by
      have hall := Run.eq_foldl (hreach.append (Run.cons trivial hstep hrun))
      have := logOf_foldl roomID (es ++ .subscribe epochOf roomID lastEventID :: fs)
        (newHub cfg : Hub D V)
      rw [← hall, logOf, hr'] at this
      exact this
    rw [hspl hopen, hlog]
  · rintro ⟨q, hsq, hqr, hlost⟩
    obtain ⟨h₁, r₁, hl, -, -, hres, hrooms, -⟩ := subscribe_spec hsub
    obtain rfl : r₁ = r := by
      rw [hrooms, hl.room] at hroom
      exact Option.some.inj hroom
    rw [hres]
    exact resume_reset_of_lost (hl.ringOK hok) hid hsq hqr hlost

/-- Two events in a room of epoch 7. -/
def twoEvents : Hub String Unit :=
  [Op.publish (some 7) 1000 "board" (some "a") (),
    .publish (some 7) 2000 "board" (some "b") ()].foldl exec (newHub defaultConfig)

/-- A client that saw the first of them resumes with the second, and is given the third
when it is published. -/
theorem subscribe_replay_exact_twoEvents :
    ∃ ans, (subscribe twoEvents (some 7) "board" "7-1").2 = some ans ∧
      ans.replay ++ placed (exec (subscribe twoEvents (some 7) "board" "7-1").1
        (.publish (some 7) 3000 "board" (some "c") ())) ans.sub =
      (number 7 [("a", ()), ("b", ()), ("c", ())]).drop 1 := by
  refine ⟨{ sub := 0, replay := [{ ID := "7-2", data := "b", vis := () }], reset := false },
    rfl, ?_⟩
  obtain ⟨hexact, -⟩ := subscribe_replay_exact defaultConfig (Run.foldl _ (fun _ _ _ => trivial) _)
    (some 7) "board" "7-1" (h := twoEvents) (r := ⟨7, 2, _, _⟩) (s := 1) rfl rfl rfl
  exact (hexact rfl _ _ (Run.single trivial rfl)).1 rfl

end FusionLocalServer.Sse
