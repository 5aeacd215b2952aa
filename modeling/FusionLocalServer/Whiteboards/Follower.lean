import FusionLocalServer.Lib.Feed
import FusionLocalServer.Whiteboards.Capacity
import FusionLocalServer.Whiteboards.Client

/-!
# Viewers

A viewer makes no edits. The board goes through patches and replacements, each broadcast as
one frame when it changed something; the document is served now and then; and the viewer
gets any frame at any time, any number of times or never, and any document that was served.
It always holds the document of the revision it says it has (`viewer_follows`).

The room is a document followed by its changes (`Lib.Feed`): a broadcast patch is exactly
the change from one revision to the next (`Taken.broadcast`), and a viewer takes only the
change after its own revision.
-/

namespace FusionLocalServer.Whiteboards

open Lib Std

/-- A live room, what was broadcast and served of it, and a viewer once it has loaded. The
history is the server's document at each revision. -/
structure Watching where
  room : Room
  history : Int → Option Records
  frames : List Frame
  /-- The documents served, with their revisions. -/
  served : List (Int × Records)
  viewer : Option Client

namespace Watching

/-- A room that nobody watches yet. -/
def start (room : Room) : Watching :=
  { room, history := fun v => if v = room.rev then some room.records else none, frames := []
    served := [], viewer := none }

inductive Event where
  | patch (o : Offer)
  | replace (doc : List Char) (by' : UserRef) (now : Time)
  /-- The document is served to the viewer. -/
  | serve
  /-- The viewer gets one of the documents served. -/
  | load (i : Nat)
  /-- The viewer gets one of the frames; the editor may refuse what is in it. -/
  | deliver (i : Nat) (refused : Bool)

/-- `publishPatch`, when there is anything to publish. -/
def publish (clientID : String) (a : Applied) (frames : List Frame) : List Frame :=
  if a.patch.empty then frames else frames ++ [.patch a.rev clientID a.patch]

/-- Another revision of the document. -/
def note (room : Room) (history : Int → Option Records) : Int → Option Records :=
  Function.update history room.rev (some room.records)

/-- The viewer after it got a document, the first one included. -/
def loaded (me : String) (viewer : Option Client) (doc : Records) (rev : Int) : Client :=
  (viewer.getD { clientID := me, records := ∅, appliedRev := 0 }).resync doc rev

/-- What the viewer, called `me`, and the board go through. -/
inductive Step (me : String) (s : Watching) : Event → Watching → Prop
  | patch {o : Offer} {a : Applied} {room : Room} :
      -- the viewer sends nothing
      o.req.clientID ≠ me → s.room.Accepts o.order o.req o.by' o.now a room →
      Step me s (.patch o) { s with room, history := note room s.history
                                    frames := publish o.req.clientID a s.frames }
  | replace {doc : List Char} {by' : UserRef} {now : Time} {rev : Int} {room : Room} :
      s.room.replace doc by' now = (room, .ok rev) →
      Step me s (.replace doc by' now) { s with room, history := note room s.history
                                                frames := s.frames ++ [.replaced rev] }
  | serve : Step me s .serve { s with served := s.served ++ [(s.room.rev, s.room.records)] }
  | load {i : Nat} {rev : Int} {doc : Records} : s.served[i]? = some (rev, doc) →
      Step me s (.load i) { s with viewer := some (loaded me s.viewer doc rev) }
  | deliver {i : Nat} {refused : Bool} {frame : Frame} {c : Client} :
      s.frames[i]? = some frame → s.viewer = some c →
      Step me s (.deliver i refused) { s with viewer := some (c.onFrame refused frame).1 }

/-- The patches broadcast, with the revisions they lead to. -/
def patches (frames : List Frame) : List (Int × WirePatch) :=
  frames.filterMap fun
    | .patch rev _ p => some (rev, p)
    | .replaced _ => none

/-- The room as a document that is followed. -/
def feed (s : Watching) : Feed Records WirePatch :=
  { rev := s.room.rev, history := s.history, frames := patches s.frames, copies := s.served }

/-- The viewer holds the document of its revision, and no frame is its own. -/
structure Follows (me : String) (s : Watching) : Prop where
  sound : s.feed.Sound DocPatch.applyTo
  now : s.history s.room.rev = some s.room.records
  foreign : ∀ rev p, Frame.patch rev me p ∉ s.frames
  viewer : ∀ c, s.viewer = some c → c.clientID = me ∧ s.feed.At c.appliedRev c.records

theorem Follows.start (me : String) (room : Room) : Follows me (start room) where
  sound := .start _ _
  now := if_pos rfl
  foreign _ _ h := (nomatch h)
  viewer _ h := (nomatch h)

/-- There is something to publish exactly when something changed. -/
theorem patch_empty_iff {order : Order} {r r' : Room} {req : DocPatchRequest} {a : Applied}
    (h : r.Taken order req a r') : a.patch.empty ↔ ¬ r.Changes req := by
  unfold DocPatch.empty Room.Changes
  rw [ExtTreeMap.isEmpty_iff]
  constructor
  · rintro ⟨hput, hremove⟩ ⟨id, hgone | hlaid⟩
    · rw [← h.remove, hremove] at hgone
      exact (nomatch hgone)
    · rw [← h.put, hput, ExtTreeMap.getElem?_empty] at hlaid
      cases hlaid
  · intro hnone
    constructor
    · refine ExtTreeMap.ext_getElem? fun id => ?_
      rw [h.put, ExtTreeMap.getElem?_empty]
      by_contra hne
      exact hnone ⟨id, .inr (Option.isSome_iff_ne_none.mpr hne)⟩
    · exact List.eq_nil_iff_forall_not_mem.mpr fun id hid => hnone ⟨id, .inl ((h.remove id).mp hid)⟩

theorem note_stays {s : Watching} {room : Room} (hnow : s.history s.room.rev = some s.room.records)
    (hrev : room.rev = s.room.rev) (hrecords : room.records = s.room.records) :
    note room s.history = s.history := by
  unfold note
  rw [hrev, hrecords, ← hnow, Function.update_eq_self]

variable {me : String} {s t : Watching}

theorem Follows.patch (h : Follows me s) {o : Offer} {a : Applied} {room : Room}
    (hforeign : o.req.clientID ≠ me)
    (hacc : s.room.Accepts o.order o.req o.by' o.now a room) :
    Follows me { s with room, history := note room s.history
                        frames := publish o.req.clientID a s.frames } := by
  have ht := hacc.taken
  by_cases hchanges : s.room.Changes o.req
  · have hframes : publish o.req.clientID a s.frames =
        s.frames ++ [.patch a.rev o.req.clientID a.patch] :=
      if_neg fun hempty => (patch_empty_iff ht).mp hempty hchanges
    have hrev : room.rev = s.room.rev + 1 := ht.rev.trans (ht.moves hchanges)
    -- the feed moves on, and the change is published
    have hfeed : feed { s with room, history := note room s.history
                               frames := publish o.req.clientID a s.frames } =
        (s.feed.move room.records).publish a.patch := by
      unfold feed Feed.move Feed.publish note patches
      rw [hframes, List.filterMap_append, hrev, ht.moves hchanges]
      rfl
    constructor
    · rw [hfeed]
      refine (h.sound.move room.records).publish (d := s.room.records) ?_ ?_
      · show (s.feed.move room.records).history (s.room.rev + 1 - 1) = _
        rw [show s.room.rev + 1 - 1 = s.room.rev by omega]
        exact (Feed.move_history (f := s.feed) room.records (Int.le_refl _)).trans h.now
      · rw [ht.broadcast]
        exact Function.update_self ..
    · exact Function.update_self ..
    · intro rev p hmem
      change Frame.patch rev me p ∈ publish o.req.clientID a s.frames at hmem
      rw [hframes, List.mem_append] at hmem
      rcases hmem with hmem | hmem
      · exact h.foreign rev p hmem
      · cases List.mem_singleton.mp hmem
        exact hforeign rfl
    · intro c hc
      obtain ⟨hid, hat⟩ := h.viewer c hc
      rw [hfeed]
      exact ⟨hid, hat.move room.records⟩
  · -- nothing changed, so nothing is published
    have hrecords := ht.records_of_stays hchanges
    have hrev : room.rev = s.room.rev := ht.rev.trans (ht.stays hchanges)
    have hframes : publish o.req.clientID a s.frames = s.frames :=
      if_pos ((patch_empty_iff ht).mpr hchanges)
    have hfeed : feed { s with room, history := note room s.history
                               frames := publish o.req.clientID a s.frames } = s.feed := by
      unfold feed
      rw [hframes, note_stays h.now hrev hrecords, hrev]
    constructor
    · rw [hfeed]
      exact h.sound
    · exact Function.update_self ..
    · rw [hframes]
      exact h.foreign
    · rw [hfeed]
      exact h.viewer

theorem Follows.replace (h : Follows me s) {doc : List Char} {by' : UserRef} {now : Time}
    {rev : Int} {room : Room} (hreplace : s.room.replace doc by' now = (room, .ok rev)) :
    Follows me { s with room, history := note room s.history
                        frames := s.frames ++ [.replaced rev] } := by
  have hrev : room.rev = s.room.rev + 1 := by
    unfold Room.replace at hreplace
    split at hreplace
    · cases hreplace
    · cases hreplace
      rfl
  have hfeed : feed { s with room, history := note room s.history
                             frames := s.frames ++ [.replaced rev] } = s.feed.move room.records := by
    unfold feed Feed.move note patches
    rw [List.filterMap_append, hrev]
    simp
  constructor
  · rw [hfeed]
    exact h.sound.move room.records
  · exact Function.update_self ..
  · intro rev' p hmem
    rcases List.mem_append.mp hmem with hmem | hmem
    · exact h.foreign rev' p hmem
    · cases List.mem_singleton.mp hmem
  · intro c hc
    obtain ⟨hid, hat⟩ := h.viewer c hc
    rw [hfeed]
    exact ⟨hid, hat.move room.records⟩

/-- A frame leads the viewer to the next document, or leaves it where it is. -/
theorem Follows.onFrame (h : Follows me s) {c : Client} (hc : s.viewer = some c) {frame : Frame}
    (hmem : frame ∈ s.frames) (refused : Bool) :
    (c.onFrame refused frame).1.clientID = me ∧
      s.feed.At (c.onFrame refused frame).1.appliedRev (c.onFrame refused frame).1.records := by
  obtain ⟨hid, hat⟩ := h.viewer c hc
  cases frame with
  | replaced rev => exact ⟨hid, hat⟩
  | patch rev clientID p =>
    have hother : clientID ≠ c.clientID := by
      rintro rfl
      rw [hid] at hmem
      exact h.foreign rev p hmem
    unfold Client.onFrame classifyFrame
    by_cases hold : rev ≤ c.appliedRev
    · simp only [hold, if_true]
      show _ ∧ s.feed.At (max c.appliedRev rev) c.records
      rw [max_eq_left hold]
      exact ⟨hid, hat⟩
    · by_cases hgap : c.appliedRev + 1 < rev
      · simp only [hold, hgap, if_true, if_false]
        exact ⟨hid, hat⟩
      · simp only [hold, hgap, hother, if_false]
        cases refused with
        | true => exact ⟨hid, hat⟩
        | false =>
          -- the one frame that is taken is the one after the viewer's revision
          have hnext : rev = c.appliedRev + 1 := by omega
          subst hnext
          show _ ∧ s.feed.At (max c.appliedRev (c.appliedRev + 1)) (p.applyTo c.records)
          rw [max_eq_right (by omega)]
          refine ⟨hid, hat.take h.sound ?_⟩
          exact List.mem_filterMap.mpr ⟨_, hmem, rfl⟩

theorem Follows.step (h : Follows me s) {e : Event} (hstep : Step me s e t) : Follows me t := by
  cases hstep with
  | patch hforeign hacc => exact h.patch hforeign hacc
  | replace hreplace => exact h.replace hreplace
  | serve =>
    constructor
    · exact h.sound.copy h.now
    · exact h.now
    · exact h.foreign
    · exact h.viewer
  | @load i rev doc hserved =>
    constructor
    · exact h.sound
    · exact h.now
    · exact h.foreign
    · intro c hc
      cases hc
      constructor
      · show (s.viewer.getD _).clientID = me
        cases hviewer : s.viewer with
        | none => rfl
        | some c => exact (h.viewer c hviewer).1
      · exact .load h.sound (List.mem_of_getElem? hserved)
  | @deliver i refused frame c hframe hc =>
    constructor
    · exact h.sound
    · exact h.now
    · exact h.foreign
    · intro c' hc'
      cases hc'
      exact h.onFrame hc (List.mem_of_getElem? hframe) refused

/-- **A viewer holds the server's document at its own revision**, at every moment and whatever
reaches it of what was broadcast and served. -/
theorem viewer_follows {room : Room} {events : List Event}
    (hrun : Run (Step me) always (start room) events t) {c : Client} (hc : t.viewer = some c) :
    t.history c.appliedRev = some c.records := by
  have h : Follows me t := hrun.invariant (.start me room) fun _ _ _ h _ hstep => h.step hstep
  exact (h.viewer c hc).2.2

/-- The empty board once its document is served and loaded. -/
def opened : Watching :=
  { start Room.empty with
    served := [(0, ∅)]
    viewer := some { clientID := "viewer", records := ∅, appliedRev := 0 } }

def drawn : Applied := { rev := 1, patch := { put := (∅ : Records).insert "shape:x" Room.blank } }

/-- A shape was drawn on it. -/
def sketched : Watching :=
  { opened with
    room := Room.empty.offered Room.drawX
    history := note (Room.empty.offered Room.drawX) opened.history
    frames := [.patch 1 "a" drawn.patch] }

/-- A viewer of an empty board sees a shape come. -/
theorem viewer_follows_sketched : sketched.history 1 = some drawn.patch.put := by
  have hdraw : Room.empty.Accepts .sorted Room.drawX.req default 0 drawn
      (Room.empty.offered Room.drawX) :=
    ⟨by decide +kernel, Prod.ext rfl (by decide +kernel)⟩
  have hserve : Step "viewer" (start Room.empty) .serve
      { start Room.empty with served := [(0, ∅)] } := .serve
  have hload : Step "viewer" { start Room.empty with served := [(0, ∅)] } (.load 0) opened :=
    .load rfl
  have hframes : publish "a" drawn [] = [.patch 1 "a" drawn.patch] := if_neg (by decide +kernel)
  have hpatch : Step "viewer" opened (.patch Room.drawX) sketched := by
    unfold sketched
    rw [← hframes]
    exact .patch (o := Room.drawX) (by decide) hdraw
  have hdeliver : Step "viewer" sketched (.deliver 0 false) _ :=
    .deliver rfl rfl
  have hrun : Run (Step "viewer") always (start Room.empty)
      [.serve, .load 0, .patch Room.drawX, .deliver 0 false] _ :=
    .cons trivial hserve (.cons trivial hload (.cons trivial hpatch (.single trivial hdeliver)))
  have hfollows := viewer_follows hrun rfl
  have hrecords : drawn.patch.applyTo ∅ = drawn.patch.put := by decide +kernel
  rw [← hrecords]
  exact hfollows

end Watching

end FusionLocalServer.Whiteboards
