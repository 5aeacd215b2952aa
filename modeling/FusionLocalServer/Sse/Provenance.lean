import FusionLocalServer.Sse.Replay

/-!
# Where the frames come from

What a hub keeps for a replay, what it hands out for one, and what waits in its subscribers'
channels was published to it: what holds of every event published holds of every frame there is.
-/

namespace FusionLocalServer.Sse

variable {D V : Type}

/-- A property of all the frames a hub has. -/
structure Holds (Q : D → V → Prop) (h : Hub D V) : Prop where
  rings : ∀ id r, h.rooms id = some r → ∀ e ∈ r.ring, Q e.data e.vis
  channels : ∀ i, ∀ f ∈ (h.clients i).ch, Q f.data f.vis

variable {Q : D → V → Prop} {h : Hub D V}

theorem holds_new (cfg : Config) : Holds Q (newHub cfg : Hub D V) :=
  ⟨fun _ _ hr => (nomatch hr), fun _ _ hf => (nomatch hf)⟩

theorem Holds.mono {Q' : D → V → Prop} (hq : Holds Q h) (himp : ∀ d v, Q d v → Q' d v) :
    Holds Q' h :=
  ⟨fun id r hr e he => himp _ _ (hq.rings id r hr e he),
    fun i f hf => himp _ _ (hq.channels i f hf)⟩

theorem Holds.locked {id : String} {h₁ : Hub D V} {r : Room D V} (hq : Holds Q h)
    (hl : Locked h id h₁ r) : Holds Q h₁ ∧ ∀ e ∈ r.ring, Q e.data e.vis := by
  have hr : ∀ e ∈ r.ring, Q e.data e.vis := by
    rcases hl.found with ⟨r₀, hr₀, rfl⟩ | ⟨-, epoch, rfl⟩
    · exact hq.rings id _ hr₀
    · exact fun _ he => (nomatch he)
  refine ⟨⟨fun id' r' hr' => ?_, fun i => hl.clients ▸ hq.channels i⟩, hr⟩
  by_cases hid : id' = id
  · subst hid
    cases hl.room.symm.trans hr'
    exact hr
  · exact hq.rings id' r' (hl.others id' hid ▸ hr')

theorem mem_trimRing {cfg : Config} {now : Int} {e : RingEntry D V} :
    ∀ {ring : List (RingEntry D V)}, e ∈ trimRing cfg now ring → e ∈ ring
  | [], he => he
  | _ :: rest, he => by
    unfold trimRing at he
    split at he
    · exact List.mem_cons_of_mem _ (mem_trimRing he)
    · exact he

theorem Holds.fanOut (hq : Holds Q h) (id : String) {f : Frame D V} (hf : Q f.data f.vis) :
    Holds Q (fanOut h id f) := by
  refine ⟨hq.rings, fun i g hg => ?_⟩
  simp only [Sse.fanOut] at hg
  split at hg
  · split at hg
    · exact hq.channels i g hg
    · rcases List.mem_append.mp hg with hg | hg
      · exact hq.channels i g hg
      · exact List.mem_singleton.mp hg ▸ hf
  · exact hq.channels i g hg

theorem Holds.publish (hq : Holds Q h) {d : D} {v : V} (hd : Q d v) (epochOf : Option Int)
    (now : Int) (id : String) (ephemeral : Bool) :
    Holds Q (publish h epochOf now id (some d) v ephemeral).1 := by
  rcases publish_cases h epochOf now id (some d) v ephemeral with heq | ⟨d', h₁, r, hd', hl, heq⟩
  · rw [heq]
    exact hq
  · cases hd'
    obtain ⟨hq₁, hr⟩ := hq.locked hl
    rw [heq]
    cases ephemeral with
    | true => exact hq₁.fanOut id hd
    | false =>
      have hroom : Holds Q (setRoom h₁ id (appendEvent h₁.cfg now r d v)) := by
        refine ⟨fun id' r' hr' => ?_, hq₁.channels⟩
        by_cases hid : id' = id
        · subst hid
          rw [setRoom_rooms_self] at hr'
          cases hr'
          intro e he
          rcases List.mem_append.mp (mem_trimRing he) with he | he
          · exact hr e he
          · exact List.mem_singleton.mp he ▸ hd
        · rw [setRoom_rooms_other _ _ hid] at hr'
          exact hq₁.rings id' r' hr'
      exact hroom.fanOut id hd

/-- What is replayed is from the ring. -/
theorem mem_resume {r : Room D V} {last : String} {f : Frame D V} (hf : f ∈ (resume r last).1) :
    ∃ e ∈ r.ring, e.data = f.data ∧ e.vis = f.vis := by
  have hreplay : ∀ {seq : Int}, f ∈ replayAfter r seq → ∃ e ∈ r.ring, e.data = f.data ∧ e.vis = f.vis := by
    intro seq hf
    obtain ⟨e, he, rfl⟩ := List.mem_map.mp hf
    exact ⟨e, (List.mem_filter.mp he).1, rfl, rfl⟩
  unfold resume at hf
  split at hf
  · simp at hf
  split at hf
  · simp at hf
  split at hf
  · simp at hf
  split at hf
  · simp at hf
  split at hf
  · simp at hf
  split at hf
  · simp at hf
  · exact hreplay hf

/-- What is handed out to be replayed, and the hub after it. -/
theorem Holds.subscribe (hq : Holds Q h) (epochOf : Option Int) (id last : String) :
    Holds Q (subscribe h epochOf id last).1 ∧
      ∀ answer, (subscribe h epochOf id last).2 = some answer →
        ∀ f ∈ answer.replay, Q f.data f.vis := by
  unfold Sse.subscribe
  cases hl : roomLocked h epochOf id with
  | none => exact ⟨hq, fun _ ha => (nomatch ha)⟩
  | some locked =>
    obtain ⟨h₁, r⟩ := locked
    obtain ⟨hq₁, hr⟩ := hq.locked (roomLocked_spec hl)
    refine ⟨⟨hq₁.rings, fun i f hf => ?_⟩, ?_⟩
    · simp only at hf
      split at hf
      · exact (nomatch hf)
      · exact hq₁.channels i f hf
    · rintro answer ⟨⟩ f hf
      simp only [resume] at hf
      obtain ⟨e, he, hdata, hvis⟩ := mem_resume hf
      rw [← hdata, ← hvis]
      exact hr e he

theorem Holds.unsubscribe (hq : Holds Q h) (id : String) (sub : Nat) :
    Holds Q (unsubscribe h id sub) := by
  refine ⟨hq.rings, fun i f hf => hq.channels i f ?_⟩
  simp only [Sse.unsubscribe] at hf
  split at hf <;> exact hf

theorem Holds.drain (hq : Holds Q h) (sub : Nat) : Holds Q (drain h sub) := by
  refine ⟨hq.rings, fun i f hf => hq.channels i f ?_⟩
  simp only [Sse.drain] at hf
  split at hf
  · exact List.mem_of_mem_tail hf
  · exact hf

end FusionLocalServer.Sse
