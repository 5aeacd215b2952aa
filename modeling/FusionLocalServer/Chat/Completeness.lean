import FusionLocalServer.Chat.Audience
import FusionLocalServer.Sse.Following

/-!
# What an entitled viewer is told

One viewer opens event streams on a project one after another, each with the id of the last
frame that has arrived. `handleChatEvents` writes a reset or the replay, then what comes on the
channel, and asks of each frame whether the viewer may see it. A stream goes over its events in
their order (`Sse.Following`), so a frame that is written to an entitled viewer comes before
all later ones. Two things get in between: where the viewer's role could not be looked up the
frame is left out, and a stream that is opened with no id starts behind what has been published.

The viewer's role may change as it likes, and a lookup answers with any role it has had. When a
stream ends, the tail of what was written to it may never arrive.
-/

namespace FusionLocalServer.Chat

open Lib

namespace Completeness

open Audience (Vis entitled)

variable {D : Type}

/-! ## Streams of one viewer -/

/-- What the viewer is told; a frame left out for want of its role (`failed`) and a stream opened
with no id (`opened`) are kept for the statements. -/
inductive Entry (D : Type) where
  | wrote (f : Sse.Frame D Vis)
  /-- A reset, on a stream that was opened when there were so many events. -/
  | reset (events : Nat)
  | failed (f : Sse.Frame D Vis)
  | opened (events : Nat)

/-- The id after an entry, where it was `lastID`: only a frame with an id has one. -/
def Entry.idAfter (lastID : String) : Entry D → String
  | .wrote f => if f.durable then f.ID else lastID
  | _ => lastID

/-- The `Last-Event-ID` of the next stream. -/
def lastEventID (told : List (Entry D)) : String := told.foldl Entry.idAfter ""

/-- An open stream. -/
structure Stream (D : Type) where
  sub : Nat
  replay : List (Sse.Frame D Vis)
  /-- The reset that is still to be written, with the number of events at the start. -/
  reset : Option Nat
  /-- How much the viewer had been told before. -/
  before : Nat

structure World (D : Type) where
  hub : Sse.Hub D Vis
  /-- The roles the viewer has had. -/
  roles : List RoleEntry := []
  told : List (Entry D) := []
  stream : Option (Stream D) := none

inductive Event (D : Type) where
  /-- Whatever else happens at the hub. -/
  | hub (op : Sse.Op D Vis)
  | role (e : RoleEntry)
  | connect (epochOf : Option Int)
  | writeReset
  /-- The stream comes to the next frame of its replay, or of its channel; `resolved` is what the
  lookup of the viewer's role answers, if it is made. -/
  | writeReplay (resolved : Option RoleEntry)
  | write (resolved : Option RoleEntry)
  /-- The stream ends, and only so much arrives of what was written to it. -/
  | disconnect (arrives : Nat)

section

variable (c : Casing) (id : Identity) (projectID : String)

namespace World

/-- `writeEntitledFrame`. -/
def writeEntitledFrame (f : Sse.Frame D Vis) (resolved : Option RoleEntry) : List (Entry D) :=
  if entitled c id f.vis resolved then [.wrote f]
  else if resolved.isNone then [.failed f] else []

def connect (w : World D) (epochOf : Option Int) : World D :=
  match Sse.subscribe w.hub epochOf projectID (lastEventID w.told) with
  | (hub, some ans) =>
    let events := (Sse.events hub projectID).length
    let told := w.told ++ if lastEventID w.told = "" then [.opened events] else []
    { w with
      hub, told
      stream := some { sub := ans.sub, replay := ans.replay, before := told.length
                       reset := if ans.reset then some events else none } }
  | (hub, none) => { w with hub }

/-- `none` is what cannot happen. -/
def step (w : World D) : Event D → Option (World D)
  | .hub op => some { w with hub := Sse.exec w.hub op }
  | .role e => some { w with roles := e :: w.roles }
  | .connect epochOf =>
    match w.stream with
    | none => some (w.connect projectID epochOf)
    | some _ => none
  | .writeReset =>
    match w.stream with
    | some s =>
      match s.reset with
      | some n => some { w with told := w.told ++ [.reset n], stream := some { s with reset := none } }
      | none => none
    | none => none
  | .writeReplay resolved =>
    match w.stream with
    | some s =>
      match s.reset, s.replay with
      | none, f :: rest => some { w with
          told := w.told ++ writeEntitledFrame c id f resolved
          stream := some { s with replay := rest } }
      | _, _ => none
    | none => none
  | .write resolved =>
    match w.stream with
    | some s =>
      match s.reset, s.replay, (w.hub.clients s.sub).ch with
      | none, [], f :: _ => some { w with
          told := w.told ++ writeEntitledFrame c id f resolved
          hub := Sse.drain w.hub s.sub }
      | _, _, _ => none
    | none => none
  | .disconnect arrives =>
    match w.stream with
    | some s => some { w with
        hub := Sse.unsubscribe w.hub projectID s.sub
        told := w.told.take (s.before + arrives)
        stream := none }
    | none => none

def Step (w : World D) (e : Event D) (w' : World D) : Prop := w.step c id projectID e = some w'

end World

/-- A lookup answers with a role the viewer has had, and the others leave its stream alone. -/
def admitted (w : World D) : Event D → Prop
  | .hub op => ∀ s, w.stream = some s → op.Others s.sub
  | .writeReplay resolved | .write resolved => ∀ e, resolved = some e → e ∈ w.roles
  | _ => True

/-- The hub's events are all from before the first of the viewer's streams, or after. -/
def start (cfg : Sse.Config) : World D := { hub := Sse.newHub cfg }

/-! ## What has become of an event -/

/-- In every role it has had, the viewer may see the frame. -/
def Entitled (roles : List RoleEntry) (f : Sse.Frame D Vis) : Prop :=
  ∀ e ∈ roles, entitled c id f.vis (some e) = true

/-- The viewer knows that it has to fetch anew what came before, or a lookup failed: the event
`i` with its frame need not be told. -/
def Excused (told : List (Entry D)) (i : Nat) (f : Sse.Frame D Vis) : Prop :=
  (∃ n, i < n ∧ (.reset n ∈ told ∨ .opened n ∈ told)) ∨ .failed f ∈ told

/-- Event `i` is settled. -/
def Settled (roles : List RoleEntry) (told : List (Entry D)) (i : Nat) (f : Sse.Frame D Vis) :
    Prop :=
  Entitled c id roles f → .wrote f ∈ told ∨ Excused told i f

/-- The first `p` events are settled. -/
def SettledTo (roles : List RoleEntry) (events : List (Sse.Frame D Vis)) (told : List (Entry D))
    (p : Nat) : Prop :=
  ∀ i < p, ∀ f, events[i]? = some f → Settled c id roles told i f

/-- When an event was written, those before it were settled. -/
def Complete (roles : List RoleEntry) (events : List (Sse.Frame D Vis)) (told : List (Entry D)) :
    Prop :=
  ∀ pre f post j, told = pre ++ .wrote f :: post → events[j]? = some f →
    SettledTo c id roles events pre j

end

variable {c : Casing} {id : Identity} {roles : List RoleEntry}
  {events events' : List (Sse.Frame D Vis)} {told : List (Entry D)} {p i : Nat}
  {f : Sse.Frame D Vis}

theorem Settled.append (h : Settled c id roles told i f) (more : List (Entry D)) :
    Settled c id roles (told ++ more) i f := by
  intro hent
  rcases h hent with hwrote | ⟨n, hn, hmem⟩ | hfailed
  · exact .inl (List.mem_append_left _ hwrote)
  · exact .inr (.inl ⟨n, hn, hmem.imp (List.mem_append_left _) (List.mem_append_left _)⟩)
  · exact .inr (.inr (List.mem_append_left _ hfailed))

theorem SettledTo.append (h : SettledTo c id roles events told p) (more : List (Entry D)) :
    SettledTo c id roles events (told ++ more) p :=
  fun i hi f hf => (h i hi f hf).append more

theorem SettledTo.role (h : SettledTo c id roles events told p) (e : RoleEntry) :
    SettledTo c id (e :: roles) events told p :=
  fun i hi f hf hent => h i hi f hf fun e' he' => hent e' (List.mem_cons_of_mem _ he')

/-- New events come after those that are settled. -/
theorem SettledTo.grow (h : SettledTo c id roles events told p) (hp : p ≤ events.length)
    (hgrow : events <+: events') : SettledTo c id roles events' told p := by
  intro i hi f hf
  obtain ⟨more, rfl⟩ := hgrow
  rw [List.getElem?_append_left (Nat.lt_of_lt_of_le hi hp)] at hf
  exact h i hi f hf

theorem SettledTo.succ (h : SettledTo c id roles events told p) (hf : events[p]? = some f)
    (hsettled : Settled c id roles told p f) : SettledTo c id roles events told (p + 1) := by
  intro i hi f' hf'
  rcases Nat.lt_succ_iff_lt_or_eq.mp hi with hlt | rfl
  · exact h i hlt f' hf'
  · rw [hf] at hf'
    exact Option.some.inj hf' ▸ hsettled

/-- What was told before an entry at the end, or the entry itself. -/
theorem split_snoc {α : Type} {l pre post : List α} {x y : α}
    (h : l ++ [x] = pre ++ y :: post) : (pre = l ∧ y = x) ∨ ∃ post', l = pre ++ y :: post' := by
  rcases List.eq_nil_or_concat post with rfl | ⟨post', z, rfl⟩
  · have := List.append_inj' h rfl
    exact .inl ⟨this.1.symm, (List.cons.inj this.2).1.symm⟩
  · rw [List.concat_eq_append, ← List.cons_append, ← List.append_assoc] at h
    exact .inr ⟨post', (List.append_inj' h rfl).1⟩

theorem Complete.snoc (h : Complete c id roles events told) {x : Entry D}
    (hx : ∀ f, x = .wrote f → ∀ j, events[j]? = some f → SettledTo c id roles events told j) :
    Complete c id roles events (told ++ [x]) := by
  intro pre f post j htold hf
  rcases split_snoc htold with ⟨rfl, hlast⟩ | ⟨post', hold⟩
  · exact hx f hlast.symm j hf
  · exact h pre f post' j hold hf

theorem Complete.take (h : Complete c id roles events told) (n : Nat) :
    Complete c id roles events (told.take n) := by
  intro pre f post j htold hf
  refine h pre f (post ++ told.drop n) j ?_ hf
  rw [← List.cons_append, ← List.append_assoc, ← htold, List.take_append_drop]

/-! ## The id to resume from -/

theorem lastEventID_snoc (told : List (Entry D)) (x : Entry D) :
    lastEventID (told ++ [x]) = x.idAfter (lastEventID told) := by
  rw [lastEventID, List.foldl_append]
  rfl

/-- An id to resume from is that of a frame, the last one with an id. -/
theorem lastEventID_of_ne (told : List (Entry D)) (h : lastEventID told ≠ "") :
    ∃ pre f post, told = pre ++ .wrote f :: post ∧ f.durable = true ∧ lastEventID told = f.ID := by
  induction told using List.reverseRecOn with
  | nil => exact absurd rfl h
  | append_singleton told x ih =>
    rw [lastEventID_snoc] at h ⊢
    have hold (hid : x.idAfter (lastEventID told) = lastEventID told) :
        ∃ pre f post, told ++ [x] = pre ++ .wrote f :: post ∧ f.durable = true ∧
          x.idAfter (lastEventID told) = f.ID := by
      rw [hid] at h ⊢
      obtain ⟨pre, f, post, htold, hf⟩ := ih h
      exact ⟨pre, f, post ++ [x], by rw [htold]; simp, hf⟩
    cases x with
    | wrote f =>
      by_cases hf : f.durable = true
      · exact ⟨told, f, [], rfl, hf, if_pos hf⟩
      · exact hold (if_neg hf)
    | reset => exact hold rfl
    | failed => exact hold rfl
    | opened => exact hold rfl

/-! ## The invariant -/

section

variable (c : Casing) (id : Identity) (projectID : String)

/-- A stream is at some event, and those before it are settled, by the reset if that is still to be
written. -/
structure StreamOK (w : World D) (s : Stream D) : Prop where
  before : s.before ≤ w.told.length
  at_ : ∃ p, Sse.Following projectID s.sub s.replay p w.hub ∧
    SettledTo c id w.roles (Sse.events w.hub projectID)
      (w.told ++ (s.reset.map Entry.reset).toList) p

structure Inv (w : World D) : Prop where
  hub : Sse.HubOK w.hub
  events : ∀ f, .wrote f ∈ w.told → f.durable = true → f ∈ Sse.events w.hub projectID
  complete : Complete c id w.roles (Sse.events w.hub projectID) w.told
  stream : ∀ s, w.stream = some s → StreamOK c id projectID w s

end

variable {projectID : String} {w : World D}

theorem inv_start (cfg : Sse.Config) : Inv c id projectID (start cfg : World D) where
  hub := Sse.hubOK_new cfg
  events := fun _ h => nomatch h
  complete := fun pre _ _ _ h => absurd h (by cases pre <;> simp [start])
  stream := fun _ h => nomatch h

/-- What happens at the hub otherwise leaves everything as settled as it was. -/
theorem Inv.hubOp (h : Inv c id projectID w) (op : Sse.Op D Vis)
    (hop : ∀ s, w.stream = some s → op.Others s.sub) :
    Inv c id projectID { w with hub := Sse.exec w.hub op } := by
  have hgrow := Sse.events_exec h.hub projectID op
  refine { hub := Sse.hubOK_exec h.hub op, events := fun f hf hdur => ?_, complete := ?_
           stream := fun s hs => ?_ }
  · exact hgrow.subset (h.events f hf hdur)
  · intro pre f post j htold hf
    -- the frame is from before, and its id says which event it is
    have hdur := Sse.durable_of_mem_events (List.mem_of_getElem? hf)
    obtain ⟨k, hk⟩ := List.mem_iff_getElem?.mp
      (h.events f (htold ▸ List.mem_append_right _ List.mem_cons_self) hdur)
    have hklt := (List.getElem?_eq_some_iff.mp hk).1
    have hk' : (Sse.events (Sse.exec w.hub op) projectID)[k]? = some f := by
      obtain ⟨more, hmore⟩ := hgrow
      rw [← hmore, List.getElem?_append_left hklt]
      exact hk
    obtain rfl := Sse.events_inj hk' hf rfl
    exact (h.complete pre f post k htold hk).grow (Nat.le_of_lt hklt) hgrow
  · obtain ⟨p, hfollow, hsettled⟩ := (h.stream s hs).at_
    exact { before := (h.stream s hs).before
            at_ := ⟨p, hfollow.exec h.hub (hop s hs), hsettled.grow hfollow.reached hgrow⟩ }

theorem Inv.role (h : Inv c id projectID w) (e : RoleEntry) :
    Inv c id projectID { w with roles := e :: w.roles } where
  hub := h.hub
  events := h.events
  complete := fun pre f post j htold hf => (h.complete pre f post j htold hf).role e
  stream := fun s hs => by
    obtain ⟨p, hfollow, hsettled⟩ := (h.stream s hs).at_
    exact { before := (h.stream s hs).before, at_ := ⟨p, hfollow, hsettled.role e⟩ }

theorem mem_wrote_append {more : List (Entry D)} (hmore : ∀ f, .wrote f ∉ more)
    (h : .wrote f ∈ told ++ more) : .wrote f ∈ told :=
  (List.mem_append.mp h).resolve_right (hmore f)

/-- A new stream starts at the event after the last one received, and all up to that are settled;
or it starts behind all events, and there is a reset to be written or no id to resume from. -/
theorem Inv.connect (h : Inv c id projectID w) (hnone : w.stream = none) (epochOf : Option Int) :
    Inv c id projectID (w.connect projectID epochOf) := by
  have hhub : Inv c id projectID
      { w with hub := (Sse.subscribe w.hub epochOf projectID (lastEventID w.told)).1 } :=
    h.hubOp (.subscribe epochOf projectID (lastEventID w.told))
      fun s hs => nomatch hnone.symm.trans hs
  unfold World.connect
  cases hsub : Sse.subscribe w.hub epochOf projectID (lastEventID w.told) with
  | mk hub ans =>
    rw [hsub] at hhub
    cases ans with
    | none => exact hhub
    | some ans =>
      have hevents := Sse.events_subscribe hsub
      obtain ⟨-, r, -, -, hreplay, hreset, -⟩ := Sse.subscribe_spec hsub
      let n := (Sse.events hub projectID).length
      let more : List (Entry D) := if lastEventID w.told = "" then [.opened n] else []
      have hmore : ∀ f, .wrote f ∉ more := by
        intro f
        simp only [more]
        split <;> simp
      refine { hub := hhub.hub
               events := fun f hf => hhub.events f (mem_wrote_append hmore hf)
               complete := ?_, stream := fun s hs => ?_ }
      · show Complete c id w.roles (Sse.events hub projectID) (w.told ++ more)
        by_cases hid : lastEventID w.told = ""
        · simp only [more, if_pos hid]
          exact hhub.complete.snoc fun f hf => nomatch hf
        · simp only [more, if_neg hid, List.append_nil]
          exact hhub.complete
      · obtain rfl := Option.some.inj hs
        refine { before := Nat.le_refl _, at_ := ?_ }
        show ∃ p, Sse.Following projectID ans.sub ans.replay p hub ∧
          SettledTo c id w.roles (Sse.events hub projectID) (w.told ++ more ++
            ((if ans.reset then some n else none : Option Nat).map Entry.reset).toList) p
        have hbehind : ans.replay = [] → Sse.Following projectID ans.sub ans.replay n hub := by
          intro hempty
          refine Sse.Following.start h.hub hsub (Nat.le_of_eq (congrArg _ hevents)) ?_
          rw [hempty, ← hevents, List.drop_of_length_le (Nat.le_refl _)]
        by_cases hres : ans.reset = true
        · -- the reset is still to be written
          refine ⟨n, hbehind (hreplay ▸ Sse.resume_reset (hreset ▸ hres)), fun i hi f _ _ => ?_⟩
          rw [if_pos hres]
          exact .inr (.inl ⟨n, hi, .inl (by simp)⟩)
        · by_cases hid : lastEventID w.told = ""
          · refine ⟨n, hbehind ?_, fun i hi f _ _ => ?_⟩
            · rw [hreplay, hid]
              exact congrArg Prod.fst (if_pos rfl)
            · exact .inr (.inl ⟨n, hi, .inr (by simp [more, hid])⟩)
          · -- the last frame with an id is an event, and those before it were settled then
            obtain ⟨pre, f, post, htold, hdur, heq⟩ := lastEventID_of_ne w.told hid
            have hmem : .wrote f ∈ w.told := htold ▸ List.mem_append_right _ List.mem_cons_self
            obtain ⟨j, hj⟩ := List.mem_iff_getElem?.mp (h.events f hmem hdur)
            rw [heq] at hsub
            have hrest := Sse.replay_of_event h.hub hsub hj (by simpa using hres)
            refine ⟨j + 1, Sse.Following.start h.hub hsub
              (List.getElem?_eq_some_iff.mp hj).1 hrest, ?_⟩
            rw [hevents]
            refine SettledTo.append (SettledTo.append (SettledTo.succ ?_ hj fun _ => .inl hmem) _) _
            rw [htold]
            exact (h.complete pre f post j htold hj).append _

/-- What is written for a frame settles it. -/
theorem settled_writeEntitledFrame {resolved : Option RoleEntry}
    (hrole : ∀ e, resolved = some e → e ∈ roles) :
    Settled c id roles (told ++ World.writeEntitledFrame c id f resolved) i f := by
  intro hent
  unfold World.writeEntitledFrame
  by_cases hwrite : entitled c id f.vis resolved = true
  · rw [if_pos hwrite]
    exact .inl (by simp)
  · rw [if_neg hwrite]
    cases resolved with
    | none => exact .inr (.inr (by simp))
    | some e => exact absurd (hent e (hrole e rfl)) hwrite

theorem mem_writeEntitledFrame {f' : Sse.Frame D Vis} {resolved : Option RoleEntry}
    (h : .wrote f' ∈ World.writeEntitledFrame c id f resolved) : f' = f := by
  unfold World.writeEntitledFrame at h
  split at h
  · simpa using h
  · split at h <;> simp at h

/-- A stream that comes to a frame: one without an id, or the event it is at. -/
theorem Complete.write (h : Complete c id roles events told) (resolved : Option RoleEntry)
    (hf : ∀ j, events[j]? = some f → SettledTo c id roles events told j) :
    Complete c id roles events (told ++ World.writeEntitledFrame c id f resolved) := by
  unfold World.writeEntitledFrame
  split
  · refine h.snoc fun f' hf' => ?_
    cases hf'
    exact hf
  · split
    · exact h.snoc fun _ hf' => nomatch hf'
    · rwa [List.append_nil]

theorem Inv.writeReset (h : Inv c id projectID w) {s : Stream D} (hs : w.stream = some s) {n : Nat}
    (hreset : s.reset = some n) :
    Inv c id projectID
      { w with told := w.told ++ [.reset n], stream := some { s with reset := none } } := by
  refine { hub := h.hub, events := fun f hf => h.events f (by simpa using hf)
           complete := h.complete.snoc (fun _ hf => nomatch hf), stream := fun s' hs' => ?_ }
  obtain rfl := Option.some.inj hs'
  obtain ⟨p, hfollow, hsettled⟩ := (h.stream s hs).at_
  rw [hreset] at hsettled
  exact { before := Nat.le_trans (h.stream s hs).before (by simp)
          at_ := ⟨p, hfollow, hsettled.append []⟩ }

/-- What is told with a frame of the stream, where the hub's events stay what they are. -/
theorem Inv.written (h : Inv c id projectID w) {s : Stream D} (hs : w.stream = some s)
    (hreset : s.reset = none) {resolved : Option RoleEntry}
    (hrole : ∀ e, resolved = some e → e ∈ w.roles) {hub : Sse.Hub D Vis} (hok : Sse.HubOK hub)
    (hevents : Sse.events hub projectID = Sse.events w.hub projectID)
    (replay : List (Sse.Frame D Vis))
    (hfollow : ∀ p, Sse.Following projectID s.sub s.replay p w.hub →
      ((Sse.events w.hub projectID)[p]? = some f ∧
        Sse.Following projectID s.sub replay (p + 1) hub) ∨
      (f.durable = false ∧ Sse.Following projectID s.sub replay p hub)) :
    Inv c id projectID { w with
      hub
      told := w.told ++ World.writeEntitledFrame c id f resolved
      stream := some { s with replay } } := by
  obtain ⟨p, hat, hsettled⟩ := (h.stream s hs).at_
  rw [hreset] at hsettled
  have hsettled : SettledTo c id w.roles (Sse.events hub projectID) w.told p := by
    rw [hevents]
    simpa using hsettled
  have hcomplete : Complete c id w.roles (Sse.events hub projectID) w.told :=
    hevents ▸ h.complete
  have hmem : ∀ f', .wrote f' ∈ w.told ++ World.writeEntitledFrame c id f resolved →
      .wrote f' ∈ w.told ∨ f' = f := fun f' hf' =>
    (List.mem_append.mp hf').imp (fun h => h) mem_writeEntitledFrame
  have hbefore : s.before ≤ (w.told ++ World.writeEntitledFrame c id f resolved).length :=
    Nat.le_trans (h.stream s hs).before (by simp)
  rcases hfollow p hat with ⟨hf, hnext⟩ | ⟨hdur, hnext⟩
  · have hf' : (Sse.events hub projectID)[p]? = some f := hevents ▸ hf
    refine { hub := hok, events := fun f' hf'' hdur => ?_, complete := ?_
             stream := fun s' hs' => ?_ }
    · rcases hmem f' hf'' with hold | rfl
      · exact hevents ▸ h.events f' hold hdur
      · exact List.mem_of_getElem? hf'
    · refine hcomplete.write resolved fun j hj => ?_
      obtain rfl := Sse.events_inj hj hf' rfl
      exact hsettled
    · obtain rfl := Option.some.inj hs'
      refine { before := hbefore, at_ := ⟨p + 1, hnext, ?_⟩ }
      rw [hreset]
      exact ((hsettled.append _).succ hf' (settled_writeEntitledFrame hrole)).append []
  · -- a frame without an id is no event
    refine { hub := hok, events := fun f' hf' hdur' => ?_, complete := ?_
             stream := fun s' hs' => ?_ }
    · rcases hmem f' hf' with hold | rfl
      · exact hevents ▸ h.events f' hold hdur'
      · exact absurd hdur' (by simp [hdur])
    · refine hcomplete.write resolved fun j hj => ?_
      exact absurd (Sse.durable_of_mem_events (List.mem_of_getElem? hj)) (by simp [hdur])
    · obtain rfl := Option.some.inj hs'
      refine { before := hbefore, at_ := ⟨p, hnext, ?_⟩ }
      rw [hreset]
      exact (hsettled.append _).append []

theorem Inv.disconnect (h : Inv c id projectID w) (sub n : Nat) :
    Inv c id projectID { w with
      hub := Sse.unsubscribe w.hub projectID sub, told := w.told.take n, stream := none } := by
  have hclosed : Inv c id projectID { w with stream := none } :=
    { hub := h.hub, events := h.events, complete := h.complete, stream := fun _ hs => nomatch hs }
  have hhub := hclosed.hubOp (.unsubscribe projectID sub) fun _ hs => nomatch hs
  exact { hub := hhub.hub
          events := fun f hf => hhub.events f (List.mem_of_mem_take hf)
          complete := hhub.complete.take n
          stream := fun _ hs => nomatch hs }

theorem Inv.step (h : Inv c id projectID w) {e : Event D} (hok : admitted w e) {w' : World D}
    (hstep : World.Step c id projectID w e w') : Inv c id projectID w' := by
  unfold World.Step at hstep
  cases e with
  | hub op =>
    cases hstep
    exact h.hubOp _ hok
  | role e =>
    cases hstep
    exact h.role e
  | connect epochOf =>
    cases hs : w.stream with
    | none =>
      simp only [World.step, hs, Option.some.injEq] at hstep
      exact hstep ▸ h.connect hs epochOf
    | some s => simp [World.step, hs] at hstep
  | writeReset =>
    cases hs : w.stream with
    | none => simp [World.step, hs] at hstep
    | some s =>
      cases hreset : s.reset with
      | none => simp [World.step, hs, hreset] at hstep
      | some n =>
        simp only [World.step, hs, hreset, Option.some.injEq] at hstep
        exact hstep ▸ h.writeReset hs hreset
  | writeReplay resolved =>
    cases hs : w.stream with
    | none => simp [World.step, hs] at hstep
    | some s =>
      cases hreset : s.reset with
      | some n => simp [World.step, hs, hreset] at hstep
      | none =>
        cases hreplay : s.replay with
        | nil => simp [World.step, hs, hreset, hreplay] at hstep
        | cons f rest =>
          simp only [World.step, hs, hreset, hreplay, Option.some.injEq] at hstep
          have hnext := h.written hs hreset hok h.hub rfl _
            (fun p hp => .inl (Sse.Following.writeReplay (hreplay ▸ hp)))
          rw [← hstep]
          simpa [hreset] using hnext
  | write resolved =>
    cases hs : w.stream with
    | none => simp [World.step, hs] at hstep
    | some s =>
      cases hreset : s.reset with
      | some n => simp [World.step, hs, hreset] at hstep
      | none =>
        cases hreplay : s.replay with
        | cons f rest => simp [World.step, hs, hreset, hreplay] at hstep
        | nil =>
          cases hch : (w.hub.clients s.sub).ch with
          | nil => simp [World.step, hs, hreset, hreplay, hch] at hstep
          | cons f rest =>
            simp only [World.step, hs, hreset, hreplay, hch, Option.some.injEq] at hstep
            have hnext := h.written hs hreset hok (f := f)
              (Sse.hubOK_exec h.hub (.drain s.sub)) rfl [] fun p hp => by
                have hdrain := Sse.Following.drain (hreplay ▸ hp) hch
                by_cases hdur : f.durable = true
                · rw [if_pos hdur] at hdrain
                  exact .inl hdrain
                · rw [if_neg hdur] at hdrain
                  exact .inr ⟨by simpa using hdur, hdrain⟩
            have hsame : { s with replay := [] } = s := by rw [← hreplay]
            rw [hsame] at hnext
            rw [← hstep, ← hs]
            exact hs ▸ hnext
  | disconnect arrives =>
    cases hs : w.stream with
    | none => simp [World.step, hs] at hstep
    | some s =>
      simp only [World.step, hs, Option.some.injEq] at hstep
      exact hstep ▸ h.disconnect s.sub _

/-! ## Main result -/

/-- **An entitled viewer is told of an event before it is told of any later one**, and before
its id to resume from is of a later one, in every run of its streams: unless it is sent a reset
after the event, opens a stream with no id after it, or a lookup of its role for it failed. -/
theorem told_before_later (cfg : Sse.Config) {es : List (Event D)} {w : World D}
    (hrun : Run (World.Step c id projectID) admitted (start cfg) es w) {i j : Nat}
    {f f' : Sse.Frame D Vis} (hf : (Sse.events w.hub projectID)[i]? = some f)
    (hf' : (Sse.events w.hub projectID)[j]? = some f') (hent : Entitled c id w.roles f) :
    (∀ pre post, w.told = pre ++ .wrote f' :: post → i < j → ¬ Excused pre i f →
      .wrote f ∈ pre) ∧
    (lastEventID w.told = f'.ID → i ≤ j → ¬ Excused w.told i f → .wrote f ∈ w.told) := by
  have hinv : Inv c id projectID w :=
    hrun.invariant (inv_start cfg) fun _ _ _ h hok hstep => h.step hok hstep
  refine ⟨fun pre post htold hij hexcused => ?_, fun hlast hij hexcused => ?_⟩
  · exact (hinv.complete pre f' post j htold hf' i hij f hf hent).resolve_right hexcused
  · have hdur := Sse.durable_of_mem_events (List.mem_of_getElem? hf')
    have hne : lastEventID w.told ≠ "" := by
      rw [hlast]
      exact of_decide_eq_true hdur
    obtain ⟨pre, g, post, htold, hgdur, hg⟩ := lastEventID_of_ne w.told hne
    have hmem : .wrote g ∈ w.told := htold ▸ List.mem_append_right _ List.mem_cons_self
    obtain ⟨k, hk⟩ := List.mem_iff_getElem?.mp (hinv.events g hmem hgdur)
    obtain rfl := Sse.events_inj hk hf' (hg.symm.trans hlast)
    obtain rfl : g = f' := Option.some.inj (hk.symm.trans hf')
    rcases Nat.lt_or_eq_of_le hij with hlt | rfl
    · refine htold ▸ (((hinv.complete pre g post k htold hk i hlt f hf).append _) hent).resolve_right ?_
      exact htold ▸ hexcused
    · exact Option.some.inj (hk.symm.trans hf) ▸ hmem

section

instance (sub : Nat) (op : Sse.Op D Vis) : Decidable (op.Others sub) :=
  match op with
  | .unsubscribe _ i | .drain i => inferInstanceAs (Decidable (i ≠ sub))
  | .publish .. | .publishEphemeral .. | .subscribe .. | .closeAll => isTrue trivial

instance (w : World D) (e : Event D) : Decidable (admitted w e) :=
  match e with
  | .hub op => inferInstanceAs (Decidable (∀ s ∈ w.stream, op.Others s.sub))
  | .writeReplay resolved | .write resolved =>
    inferInstanceAs (Decidable (∀ e ∈ resolved, e ∈ w.roles))
  | .role _ | .connect _ | .writeReset | .disconnect _ => isTrue trivial

def viewer : Identity where
  userID := "u2"
  email := "una@example.com"

def editor : RoleEntry where
  role := "EDITOR"
  listed := true
  active := true
  foundAt := 0

/-- A private channel of the viewer's. -/
def plans : Vis where
  isPrivate := true
  channel := { id := "c", name := "plans", isPrivate := true, createdAt := 0
               members := [{ userID := "u2", role := "member", addedBy := "u1", addedAt := 0 }] }

def publish (data : String) : Event String := .hub (.publish (some 1) 0 "p" (some data) plans)

def frame (data : String) (seq : Int) : Sse.Frame String Vis where
  ID := Sse.eventID 1 seq
  data := data
  vis := plans

/-- One stream ends, with the second frame on the way, and the next one goes on from the first. -/
def resumed : List (Event String) :=
  [.role editor, .connect (some 1), publish "a", publish "b", .write (some editor),
    .write (some editor), .disconnect 1, .connect (some 1), .writeReplay (some editor)]

theorem told_before_later_resumed :
    ∃ w, Run (World.Step asciiCasing viewer "p") admitted (start Sse.defaultConfig) resumed w ∧
      (∃ pre post, w.told = pre ++ .wrote (frame "b" 2) :: post ∧ .wrote (frame "a" 1) ∈ pre) ∧
      .wrote (frame "a" 1) ∈ w.told := by
  have hrun : Run (World.Step asciiCasing viewer "p") admitted (start Sse.defaultConfig) resumed _ :=
    Run.of_exec resumed rfl
  obtain ⟨hpre, hlast⟩ := told_before_later Sse.defaultConfig hrun (i := 0) (j := 1)
    (f := frame "a" 1) rfl (show _ = some (frame "b" 2) from rfl) (by unfold Entitled; decide)
  have hexcused : ¬ Excused [.opened 0, .wrote (frame "a" 1), .wrote (frame "b" 2)] 0
      (frame "a" 1) := by simp [Excused]
  refine ⟨_, hrun, ⟨_, [], rfl, hpre [.opened 0, .wrote (frame "a" 1)] [] rfl (by decide) ?_⟩,
    hlast rfl (by decide) hexcused⟩
  simp [Excused]

/-- Event `i` has been passed over: a later one was written, with no reset between. -/
def PassedOver (c : Casing) (id : Identity) (projectID : String) (w : World D) (i j : Nat) : Prop :=
  ∃ f f' pre post, (Sse.events w.hub projectID)[i]? = some f ∧
    (Sse.events w.hub projectID)[j]? = some f' ∧ i < j ∧ Entitled c id w.roles f ∧
    w.told = pre ++ .wrote f' :: post ∧ (∀ n, .reset n ∉ pre) ∧ .wrote f ∉ pre

/-- The lookup of the viewer's role for the first frame fails. -/
def lookupFails : List (Event String) :=
  [.role editor, .connect (some 1), publish "a", publish "b", .write none, .write (some editor)]

/-- Between two streams there is a frame, and no id has been received. -/
def nothingReceived : List (Event String) :=
  [.role editor, .connect (some 1), .disconnect 0, publish "a", .connect (some 1), publish "b",
    .write (some editor)]

theorem entitled_passed_over :
    (∃ w, Run (World.Step asciiCasing viewer "p") admitted (start Sse.defaultConfig) lookupFails w ∧
      PassedOver asciiCasing viewer "p" w 0 1) ∧
    ∃ w, Run (World.Step asciiCasing viewer "p") admitted (start Sse.defaultConfig)
        nothingReceived w ∧
      PassedOver asciiCasing viewer "p" w 0 1 := by
  have hfails : Run (World.Step asciiCasing viewer "p") admitted (start Sse.defaultConfig)
      lookupFails _ := Run.of_exec lookupFails rfl
  have hnothing : Run (World.Step asciiCasing viewer "p") admitted (start Sse.defaultConfig)
      nothingReceived _ := Run.of_exec nothingReceived rfl
  refine ⟨⟨_, hfails, frame "a" 1, frame "b" 2, [.opened 0, .failed (frame "a" 1)], [],
      rfl, rfl, by decide, by unfold Entitled; decide, rfl, by simp, by simp⟩,
    ⟨_, hnothing, frame "a" 1, frame "b" 2, [.opened 0, .opened 1], [],
      rfl, rfl, by decide, by unfold Entitled; decide, rfl, by simp, by simp⟩⟩

end

end Completeness

end FusionLocalServer.Chat
