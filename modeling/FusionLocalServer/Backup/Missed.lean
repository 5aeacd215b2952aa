import FusionLocalServer.Backup.Scheduler

/-!
# When the scheduler skips a backup

The clock is read again behind every poke and every pass, and a slot that has come by then is
behind the new time. So a slot is lost when a poke is taken although it has come, and when it
comes while the backups of a pass are running. Nothing else loses one.
-/

namespace FusionLocalServer.Backup.Scheduler

open Lib

variable {zone begun : Int} {s s' : State} {e : Event} {slug : String} {o : Int}
  {configs : Configs} {starts : List (String × Int)}

theorem nanosPerDay_pos : 0 < nanosPerDay := by
  rw [nanosPerDay_eq]
  omega

theorem mem_diskHubSlugs {cfg : HubConfig} (h : configs.lookup slug = some cfg) :
    slug ∈ diskHubSlugs configs := by
  rw [diskHubSlugs, List.mem_insertionSort, ← AList.mem_keys, ← AList.lookup_isSome, h]
  rfl

/-- The timer is set for no later than the next slot of any hub. -/
theorem nextScheduledBackup_le {now : Int} (h : Slot zone configs slug o) (ho : now < o) :
    ∃ next, nextScheduledBackup zone now configs = some next ∧ next ≤ o := by
  obtain ⟨cfg, hcfg, hactive, -, hocc⟩ := h
  have hmem : nextRun zone now cfg.backupTime ∈ (diskHubSlugs configs).filterMap fun slug =>
      ((configs.lookup slug).filter HubConfig.active).map fun cfg =>
        nextRun zone now cfg.backupTime := by
    refine List.mem_filterMap.mpr ⟨slug, mem_diskHubSlugs hcfg, ?_⟩
    rw [hcfg, Option.filter_some, if_pos hactive, Option.map_some]
  unfold nextScheduledBackup
  obtain ⟨next, hnext⟩ := Option.isSome_iff_exists.mp (List.isSome_min?_of_mem hmem)
  refine ⟨next, hnext, le_trans ?_ ((nextRun_spec zone now cfg.backupTime).2.2 o hocc ho)⟩
  exact (List.min?_eq_some_iff.mp hnext).2 _ hmem

/-- A hub is due in the pass behind its slot. -/
theorem due_of_slot {computedAt now : Int} (h : Slot zone configs slug o) (hlo : computedAt < o)
    (hhi : o ≤ now) : due zone computedAt now configs slug = true := by
  obtain ⟨cfg, hcfg, hactive, -, hocc⟩ := h
  have hle := (nextRun_spec zone computedAt cfg.backupTime).2.2 o hocc hlo
  rw [due, hcfg]
  dsimp only
  rw [hactive, Bool.true_and, decide_eq_false (by omega)]
  rfl

/-- A slot comes round after a day. -/
theorem Slot.next (h : Slot zone configs slug o) : Slot zone configs slug (o + nanosPerDay) := by
  obtain ⟨cfg, hcfg, hactive, hsince, hocc⟩ := h
  have := nanosPerDay_pos
  exact ⟨cfg, hcfg, hactive, by omega, hocc.next⟩

theorem Started.mono {p : String × Int} (h : Started starts slug o) :
    Started (p :: starts) slug o := by
  obtain ⟨t, ht, hle, hlt⟩ := h
  exact ⟨t, List.mem_cons_of_mem _ ht, hle, hlt⟩

/-! ## What holds between the steps -/

/-- In a pass, each hub whose slot led to it has been backed up or is still to come. -/
structure InPass (zone begun : Int) (s : State) (computedAt now : Int) (slugs : List String) :
    Prop where
  le : computedAt ≤ now
  clock : now ≤ s.clock
  served : ∀ slug o, Slot zone s.configs slug o → begun < o → computedAt < o → o ≤ now →
    now < o + nanosPerDay ∧ (Started s.starts slug o ∨ slug ∈ slugs)

/-- **The invariant**: up to the time with which the timer is computed no slot was skipped, and
what the goroutine waits for comes in time for those behind it. -/
structure Sound (zone begun : Int) (s : State) : Prop where
  clock : s.phase.computedAt ≤ s.clock
  sent : ∀ sent ∈ s.poke, sent ≤ s.clock
  started : ∀ slug o, Slot zone s.configs slug o → begun < o → o ≤ s.phase.computedAt →
    Started s.starts slug o
  never : NeverSkipped zone begun s
  idle : ∀ now, s.phase = .idle now → ∀ slug o, Slot zone s.configs slug o → now < o →
    ∃ sent ∈ s.poke, sent < o
  waiting : ∀ now next, s.phase = .waiting now next → ∀ slug o, Slot zone s.configs slug o →
    now < o → next ≤ o ∨ ∃ sent ∈ s.poke, sent < o
  passing : ∀ computedAt now slugs, s.phase = .passing computedAt now slugs →
    InPass zone begun s computedAt now slugs
  running : ∀ computedAt now slugs, s.phase = .running computedAt now slugs →
    InPass zone begun s computedAt now slugs

theorem Sound.computedAt_le {phase : Phase} (h : Sound zone begun s) (hphase : s.phase = phase) :
    phase.computedAt ≤ s.clock := by
  rw [← hphase]
  exact h.clock

/-- A slot that has not been served is less than a day ago in a pass over which none comes. -/
theorem InPass.late {computedAt now t : Int} {slugs : List String}
    (h : InPass zone begun s computedAt now slugs) (hslot : Slot zone s.configs slug o)
    (hbegun : begun < o) (ho : computedAt < o) (hnone : ¬ SlotIn zone s.configs now t) :
    t < o + nanosPerDay := by
  by_contra hlate
  refine hnone ⟨slug, o + nanosPerDay, hslot.next, ?_, by omega⟩
  by_cases hnow : o ≤ now
  · exact (h.served slug o hslot hbegun ho hnow).1
  · have := nanosPerDay_pos
    omega

/-- **Whatever step comes**, a slot a day ago has been served before it. -/
theorem Sound.late (h : Sound zone begun s) (hsmooth : Smooth zone s e)
    (hslot : Slot zone s.configs slug o) (hbegun : begun < o)
    (hlate : o + nanosPerDay ≤ e.time) : Started s.starts slug o := by
  by_cases ho : o ≤ s.phase.computedAt
  · exact h.started slug o hslot hbegun ho
  · exfalso
    obtain ⟨hready, hpoke⟩ := hsmooth.prompt
    cases hphase : s.phase with
    | evaluating now =>
      rw [hphase] at hready ho
      have := hready now rfl
      simp only [Phase.computedAt] at ho
      omega
    | idle now =>
      rw [hphase] at hpoke ho
      simp only [Phase.computedAt] at ho
      obtain ⟨sent, hsent, hlt⟩ := h.idle now hphase slug o hslot (by omega)
      have := hpoke rfl sent hsent
      omega
    | waiting now next =>
      rw [hphase] at hready hpoke ho
      simp only [Phase.computedAt] at ho
      rcases h.waiting now next hphase slug o hslot (by omega) with hle | ⟨sent, hsent, hlt⟩
      · have := hready next rfl
        omega
      · have := hpoke rfl sent hsent
        omega
    | passing computedAt now slugs =>
      rw [hphase] at ho
      simp only [Phase.computedAt] at ho
      have := (h.passing _ _ _ hphase).late hslot hbegun (by omega) (hsmooth.pass _ (hphase ▸ rfl))
      omega
    | running computedAt now slugs =>
      rw [hphase] at ho
      simp only [Phase.computedAt] at ho
      have := (h.running _ _ _ hphase).late hslot hbegun (by omega) (hsmooth.pass _ (hphase ▸ rfl))
      omega

/-! ## One step -/

/-- A slot after saving is one from before, or still to come. -/
theorem slot_save {time : Int} {dir hhmm : String} {enabled : Bool} {slug' : String}
    (h : Slot zone (configs.insert slug (newConfig (configs.lookup slug) time dir hhmm enabled))
      slug' o) : Slot zone configs slug' o ∨ time < o := by
  obtain ⟨cfg, hcfg, hactive, hsince, hocc⟩ := h
  by_cases hslug : slug' = slug
  · subst hslug
    rw [AList.lookup_insert] at hcfg
    obtain rfl := Option.some.inj hcfg
    unfold newConfig at hactive hsince hocc
    dsimp only at hactive hsince hocc
    split at hactive
    · next hnone =>
      rw [hnone] at hsince
      exact .inr hsince
    · next old hold =>
      rw [hold] at hsince hocc
      dsimp only at hsince hocc
      split at hactive
      · next hsame =>
        rw [if_pos hsame] at hsince hocc
        refine .inl ⟨old, hold, hsame.1.trans hactive, hsince, ?_⟩
        rw [hsame.2]
        exact hocc
      · next hnew =>
        rw [if_neg hnew] at hsince
        exact .inr hsince
  · rw [AList.lookup_insert_ne hslug] at hcfg
    exact .inl ⟨cfg, hcfg, hactive, hsince, hocc⟩

/-- The pending poke after another is sent. -/
theorem sent_or {poke : Option Int} {time sent : Int} (hpast : ∀ u ∈ poke, u ≤ time)
    (h : sent ∈ poke.or (some time)) : sent ≤ time := by
  cases poke with
  | none =>
    cases h
    exact le_refl _
  | some u =>
    cases h
    exact hpast _ rfl

theorem exists_sent_or {poke : Option Int} {time : Int} (hpast : ∀ u ∈ poke, u ≤ time)
    (ho : time < o ∨ ∃ sent ∈ poke, sent < o) : ∃ sent ∈ poke.or (some time), sent < o := by
  cases poke with
  | none =>
    rcases ho with ho | ⟨sent, hsent, -⟩
    · exact ⟨time, rfl, ho⟩
    · cases hsent
  | some u =>
    refine ⟨u, rfl, ?_⟩
    rcases ho with ho | ⟨sent, hsent, hlt⟩
    · have := hpast u rfl
      omega
    · cases hsent
      exact hlt

theorem InPass.save {computedAt now time : Int} {slugs : List String} {dir hhmm : String}
    {enabled : Bool} {poke : Option Int} (h : InPass zone begun s computedAt now slugs)
    (htime : s.clock ≤ time) :
    InPass zone begun { s with
      clock := time
      configs := s.configs.insert slug (newConfig (s.configs.lookup slug) time dir hhmm enabled)
      poke := poke } computedAt now slugs where
  le := h.le
  clock := le_trans h.clock htime
  served slug' o hslot hbegun hlo hhi := by
    rcases slot_save hslot with hold | hnew
    · exact h.served slug' o hold hbegun hlo hhi
    · have := h.clock
      omega

theorem Sound.save {dir hhmm : String} {enabled : Bool} (h : Sound zone begun s)
    (hsmooth : Smooth zone s e) (htime : s.clock ≤ e.time) :
    Sound zone begun { s with
      clock := e.time
      configs := s.configs.insert slug (newConfig (s.configs.lookup slug) e.time dir hhmm enabled)
      poke := s.poke.or (some e.time) } := by
  have hpast : ∀ u ∈ s.poke, u ≤ e.time := fun u hu => le_trans (h.sent u hu) htime
  refine ⟨le_trans h.clock htime, fun sent hsent => sent_or hpast hsent, ?_, ?_, ?_, ?_,
    fun c n slugs hphase => (h.passing c n slugs hphase).save htime,
    fun c n slugs hphase => (h.running c n slugs hphase).save htime⟩
  · intro slug' o hslot hbegun ho
    rcases slot_save hslot with hold | hnew
    · exact h.started slug' o hold hbegun ho
    · have hclock := h.clock
      dsimp only at ho
      omega
  · intro slug' o hslot hbegun hlate
    rcases slot_save hslot with hold | hnew
    · exact h.late hsmooth hold hbegun hlate
    · have := nanosPerDay_pos
      dsimp only at hlate
      omega
  · intro now hphase slug' o hslot ho
    refine exists_sent_or hpast ?_
    rcases slot_save hslot with hold | hnew
    · exact .inr (h.idle now hphase slug' o hold ho)
    · exact .inl hnew
  · intro now next hphase slug' o hslot ho
    rcases slot_save hslot with hold | hnew
    · rcases h.waiting now next hphase slug' o hold ho with hle | hsent
      · exact .inl hle
      · exact .inr (exists_sent_or hpast (.inr hsent))
    · exact .inr (exists_sent_or hpast (.inl hnew))

/-- Reading the clock again, with no slot since it was read. -/
theorem Sound.evaluating {poke : Option Int} (h : Sound zone begun s) (hsmooth : Smooth zone s e)
    (hpoke : ∀ sent ∈ poke, sent ≤ e.time)
    (hstarted : ∀ slug o, Slot zone s.configs slug o → begun < o → o ≤ e.time →
      Started s.starts slug o) :
    Sound zone begun { s with clock := e.time, poke := poke, phase := .evaluating e.time } where
  clock := le_refl _
  sent := hpoke
  started := hstarted
  never _ _ hslot hbegun hlate := h.late hsmooth hslot hbegun hlate
  idle _ hphase := (nomatch hphase)
  waiting _ _ hphase := (nomatch hphase)
  passing _ _ _ hphase := (nomatch hphase)
  running _ _ _ hphase := (nomatch hphase)

theorem Sound.takePoke (h : Sound zone begun s) (hsmooth : Smooth zone s e)
    (hmove : e.move = .takePoke) :
    Sound zone begun { s with clock := e.time, poke := none, phase := .evaluating e.time } := by
  refine h.evaluating hsmooth (fun _ hsent => (nomatch hsent)) fun slug o hslot hbegun ho => ?_
  by_cases hpast : o ≤ s.phase.computedAt
  · exact h.started slug o hslot hbegun hpast
  · exact absurd ⟨slug, o, hslot, by omega, ho⟩ (hsmooth.poke hmove)

theorem Sound.idle_of_none {now : Int} (h : Sound zone begun s) (hsmooth : Smooth zone s e)
    (htime : s.clock ≤ e.time) (hphase : s.phase = .evaluating now)
    (hnext : nextScheduledBackup zone now s.configs = none) :
    Sound zone begun { s with clock := e.time, phase := .idle now } where
  clock := le_trans (show now ≤ s.clock from h.computedAt_le hphase) htime
  sent sent hsent := le_trans (h.sent sent hsent) htime
  started slug o hslot hbegun ho := h.started slug o hslot hbegun (hphase ▸ ho)
  never _ _ hslot hbegun hlate := h.late hsmooth hslot hbegun hlate
  idle now' hphase' slug o hslot ho := by
    cases hphase'
    obtain ⟨next, hsome, -⟩ := nextScheduledBackup_le hslot ho
    rw [hnext] at hsome
    cases hsome
  waiting _ _ hphase := (nomatch hphase)
  passing _ _ _ hphase := (nomatch hphase)
  running _ _ _ hphase := (nomatch hphase)

theorem Sound.waiting_of_some {now next : Int} (h : Sound zone begun s)
    (hsmooth : Smooth zone s e) (htime : s.clock ≤ e.time) (hphase : s.phase = .evaluating now)
    (hnext : nextScheduledBackup zone now s.configs = some next) :
    Sound zone begun { s with clock := e.time, phase := .waiting now next } where
  clock := le_trans (show now ≤ s.clock from h.computedAt_le hphase) htime
  sent sent hsent := le_trans (h.sent sent hsent) htime
  started slug o hslot hbegun ho := h.started slug o hslot hbegun (hphase ▸ ho)
  never _ _ hslot hbegun hlate := h.late hsmooth hslot hbegun hlate
  idle _ hphase := (nomatch hphase)
  waiting now' next' hphase' slug o hslot ho := by
    cases hphase'
    obtain ⟨next', hsome, hle⟩ := nextScheduledBackup_le hslot ho
    rw [hnext] at hsome
    cases hsome
    exact .inl hle
  passing _ _ _ hphase := (nomatch hphase)
  running _ _ _ hphase := (nomatch hphase)

/-- **The timer expires**: every hub whose slot has come is in the pass. -/
theorem Sound.fire {now next : Int} (h : Sound zone begun s) (hsmooth : Smooth zone s e)
    (htime : s.clock ≤ e.time) (hphase : s.phase = .waiting now next) :
    Sound zone begun { s with
      clock := e.time, phase := .passing now e.time (diskHubSlugs s.configs) } where
  clock := le_trans (show now ≤ s.clock from h.computedAt_le hphase) htime
  sent sent hsent := le_trans (h.sent sent hsent) htime
  started slug o hslot hbegun ho := h.started slug o hslot hbegun (hphase ▸ ho)
  never _ _ hslot hbegun hlate := h.late hsmooth hslot hbegun hlate
  idle _ hphase := (nomatch hphase)
  waiting _ _ hphase := (nomatch hphase)
  passing c n slugs hphase' := by
    cases hphase'
    have hclock : now ≤ s.clock := h.computedAt_le hphase
    refine ⟨le_trans hclock htime, le_refl _, fun slug o hslot hbegun hlo hhi => ⟨?_, .inr ?_⟩⟩
    · obtain ⟨hready, hpoke⟩ := hsmooth.prompt
      rw [hphase] at hready hpoke
      rcases h.waiting now next hphase slug o hslot hlo with hle | ⟨sent, hsent, hlt⟩
      · have := hready next rfl
        omega
      · have := hpoke rfl sent hsent
        omega
    · obtain ⟨cfg, hcfg, -⟩ := hslot
      exact mem_diskHubSlugs hcfg
  running _ _ _ hphase := (nomatch hphase)

/-- What a pass or a backup in it goes on with. -/
theorem Sound.inPass {computedAt now : Int} {slugs : List String} {starts : List (String × Int)}
    {phase : Phase} (h : Sound zone begun s) (hsmooth : Smooth zone s e)
    (htime : s.clock ≤ e.time) (hold : s.phase.computedAt = computedAt)
    (hphase : phase = .passing computedAt now slugs ∨ phase = .running computedAt now slugs)
    (hstarts : s.starts ⊆ starts)
    (hpass : InPass zone begun { s with clock := e.time, phase := phase, starts := starts }
      computedAt now slugs) :
    Sound zone begun { s with clock := e.time, phase := phase, starts := starts } := by
  have hkeep : ∀ slug o, Started s.starts slug o → Started starts slug o := by
    rintro slug o ⟨t, ht, hle, hlt⟩
    exact ⟨t, hstarts ht, hle, hlt⟩
  have hcomputed : phase.computedAt = computedAt := by
    rcases hphase with rfl | rfl <;> rfl
  refine ⟨?_, fun sent hsent => le_trans (h.sent sent hsent) htime, ?_, ?_, ?_, ?_, ?_, ?_⟩
  · show phase.computedAt ≤ e.time
    rw [hcomputed, ← hold]
    exact le_trans h.clock htime
  · intro slug o hslot hbegun ho
    refine hkeep slug o (h.started slug o hslot hbegun ?_)
    rw [hold, ← hcomputed]
    exact ho
  · exact fun slug o hslot hbegun hlate => hkeep slug o (h.late hsmooth hslot hbegun hlate)
  · rintro now' hidle
    rcases hphase with rfl | rfl <;> cases hidle
  · rintro now' next hwaiting
    rcases hphase with rfl | rfl <;> cases hwaiting
  · rintro c n slugs' hpassing
    rcases hphase with rfl | rfl
    · cases hpassing
      exact hpass
    · cases hpassing
  · rintro c n slugs' hrunning
    rcases hphase with rfl | rfl
    · cases hrunning
    · cases hrunning
      exact hpass

/-- The next hub is passed over when it is not due. -/
theorem InPass.skip {computedAt now time : Int} {slugs : List String} {phase : Phase}
    (h : InPass zone begun s computedAt now (slug :: slugs)) (htime : s.clock ≤ time)
    (hdue : due zone computedAt now s.configs slug = false) :
    InPass zone begun { s with clock := time, phase := phase } computedAt now slugs where
  le := h.le
  clock := le_trans h.clock htime
  served slug' o hslot hbegun hlo hhi := by
    obtain ⟨hlt, hserved⟩ := h.served slug' o hslot hbegun hlo hhi
    refine ⟨hlt, hserved.imp_right fun hmem => ?_⟩
    rcases List.mem_cons.mp hmem with rfl | hmem
    · rw [due_of_slot hslot hlo hhi] at hdue
      cases hdue
    · exact hmem

/-- **A backup begins** in time for the slot that led to it. -/
theorem InPass.start {computedAt now time : Int} {slugs : List String} {phase : Phase}
    (h : InPass zone begun s computedAt now (slug :: slugs)) (htime : s.clock ≤ time)
    (hnone : ¬ SlotIn zone s.configs now time) :
    InPass zone begun { s with
      clock := time, phase := phase, starts := (slug, time) :: s.starts } computedAt now slugs where
  le := h.le
  clock := le_trans h.clock htime
  served slug' o hslot hbegun hlo hhi := by
    obtain ⟨hlt, hserved⟩ := h.served slug' o hslot hbegun hlo hhi
    have hlate := h.late hslot hbegun hlo hnone
    refine ⟨hlt, ?_⟩
    rcases hserved with hserved | hmem
    · exact .inl hserved.mono
    · rcases List.mem_cons.mp hmem with rfl | hmem
      · refine .inl ⟨time, List.mem_cons_self, ?_, hlate⟩
        have := h.clock
        omega
      · exact .inr hmem

theorem InPass.finish {computedAt now time : Int} {slugs : List String} {phase : Phase}
    (h : InPass zone begun s computedAt now slugs) (htime : s.clock ≤ time) :
    InPass zone begun { s with clock := time, phase := phase } computedAt now slugs where
  le := h.le
  clock := le_trans h.clock htime
  served := h.served

/-- **A smooth step keeps the invariant.** -/
theorem Sound.step (h : Sound zone begun s) (hsmooth : Smooth zone s e)
    (hstep : Steps zone s e s') : Sound zone begun s' := by
  unfold Steps Scheduler.step at hstep
  split at hstep
  · cases hstep
  · next hnot =>
    have htime : s.clock ≤ e.time := by omega
    split at hstep
    · cases hstep
      exact h.save hsmooth htime
    · next hmove _ =>
      split at hstep
      · cases hstep
        exact h.takePoke hsmooth hmove
      · cases hstep
    · next hmove _ =>
      split at hstep
      · cases hstep
        exact h.takePoke hsmooth hmove
      · cases hstep
    · next now _ hphase =>
      split at hstep
      · next hnext =>
        cases hstep
        exact h.idle_of_none hsmooth htime hphase hnext
      · next hnext =>
        cases hstep
        exact h.waiting_of_some hsmooth htime hphase hnext
    · next hphase =>
      split at hstep
      · cases hstep
        exact h.fire hsmooth htime hphase
      · cases hstep
    · next computedAt now _ hphase =>
      have hmem : now ∈ s.phase.passNow := by
        rw [hphase]
        rfl
      cases hstep
      -- the pass is over: the slots up to now led to it or came before
      have hpass := h.passing _ _ _ hphase
      refine h.evaluating hsmooth (fun sent hsent => le_trans (h.sent sent hsent) htime)
        fun slug o hslot hbegun ho => ?_
      by_cases hpast : o ≤ s.phase.computedAt
      · exact h.started slug o hslot hbegun hpast
      · rw [hphase] at hpast
        by_cases hnow : o ≤ now
        · rcases (hpass.served slug o hslot hbegun (not_le.mp hpast) hnow).2 with hserved | hleft
          · exact hserved
          · cases hleft
        · exact absurd ⟨slug, o, hslot, by omega, ho⟩ (hsmooth.pass now hmem)
    · next hphase =>
      split at hstep
      · cases hstep
      · next hdue =>
        cases hstep
        exact h.inPass hsmooth htime (by rw [hphase]; rfl) (.inl rfl) (List.Subset.refl _)
          ((h.passing _ _ _ hphase).skip htime (Bool.eq_false_iff.mpr hdue))
    · next hmove _ => exact absurd hmove hsmooth.available
    · next hphase =>
      split at hstep
      · cases hstep
        exact h.inPass hsmooth htime (by rw [hphase]; rfl) (.inr rfl) (List.subset_cons_self _ _)
          ((h.passing _ _ _ hphase).start htime (hsmooth.pass _ (hphase ▸ rfl)))
      · cases hstep
    · next hphase =>
      cases hstep
      exact h.inPass hsmooth htime (by rw [hphase]; rfl) (.inl rfl) (List.Subset.refl _)
        ((h.running _ _ _ hphase).finish htime)
    · cases hstep

/-! ## Every run -/

theorem Begins.sound (h : Begins s) : Sound zone s.clock s where
  clock := by
    rw [h.phase]
    exact le_refl _
  sent sent hsent := by
    rw [h.poke] at hsent
    cases hsent
  started slug o _ hbegun ho := by
    rw [h.phase] at ho
    exact absurd ho (not_le.mpr hbegun)
  never slug o _ hbegun hlate := by
    have := nanosPerDay_pos
    omega
  idle now hphase := by
    rw [h.phase] at hphase
    cases hphase
  waiting now next hphase := by
    rw [h.phase] at hphase
    cases hphase
  passing c n slugs hphase := by
    rw [h.phase] at hphase
    cases hphase
  running c n slugs hphase := by
    rw [h.phase] at hphase
    cases hphase

/-- **Where no step passes over a slot, no backup is skipped**, whatever the hubs, the
settings that are saved, how long the backups take, and the order of pokes and timers. -/
theorem backups_never_skipped {begin : State} {es : List Event} (hbegin : Begins begin)
    (hrun : Run (Steps zone) (Smooth zone) begin es s) : NeverSkipped zone begin.clock s :=
  (hrun.invariant hbegin.sound fun _ _ _ h hsmooth hstep => h.step hsmooth hstep).never

/-! ## Slots by computation -/

/-- The first slot of a hub behind `a`. -/
def firstSlot (zone a : Int) (cfg : HubConfig) : Int :=
  nextRun zone (max a cfg.since) cfg.backupTime

/-- Whether the time of some hub comes round is seen at its first slot. -/
theorem slotIn_iff {a b : Int} :
    SlotIn zone configs a b ↔ ∃ slug ∈ configs.keys, ∃ cfg ∈ configs.lookup slug,
      cfg.active = true ∧ firstSlot zone a cfg ≤ b := by
  constructor
  · rintro ⟨slug, o, ⟨cfg, hcfg, hactive, hsince, hocc⟩, hlo, hhi⟩
    refine ⟨slug, ?_, cfg, hcfg, hactive, ?_⟩
    · rw [← AList.mem_keys, ← AList.lookup_isSome, hcfg]
      rfl
    · have := (nextRun_spec zone (max a cfg.since) cfg.backupTime).2.2 o hocc (by omega)
      exact le_trans this hhi
  · rintro ⟨slug, -, cfg, hcfg, hactive, hle⟩
    obtain ⟨hlt, hocc, -⟩ := nextRun_spec zone (max a cfg.since) cfg.backupTime
    exact ⟨slug, _, ⟨cfg, hcfg, hactive, by omega, hocc⟩, by omega, hle⟩

instance (a b : Int) : Decidable (SlotIn zone configs a b) :=
  decidable_of_iff _ slotIn_iff.symm

instance : Decidable (Smooth zone s e) :=
  decidable_of_iff (Prompt s e.time ∧
      (e.move = .takePoke → ¬ SlotIn zone s.configs s.phase.computedAt e.time) ∧
      (∀ now ∈ s.phase.passNow, ¬ SlotIn zone s.configs now e.time) ∧ e.move ≠ .unavailable)
    ⟨fun h => ⟨h.1, h.2.1, h.2.2.1, h.2.2.2⟩, fun h => ⟨h.prompt, h.poke, h.pass, h.available⟩⟩

theorem started_iff :
    Started starts slug o ↔
      ∃ p ∈ starts, p.1 = slug ∧ o ≤ p.2 ∧ p.2 < o + nanosPerDay := by
  constructor
  · rintro ⟨t, ht, hle, hlt⟩
    exact ⟨(slug, t), ht, rfl, hle, hlt⟩
  · rintro ⟨⟨slug, t⟩, ht, rfl, hle, hlt⟩
    exact ⟨t, ht, hle, hlt⟩

instance : Decidable (Started starts slug o) := decidable_of_iff _ started_iff.symm

/-! ## Two hubs, five minutes apart -/

/-- A number of minutes. -/
def minutes (n : Int) : Int := n * (60 * nanosPerSecond)

/-- The goroutine begins at midnight; each hub has its time of day. -/
def atMidnight (hubs : List (String × String)) : State where
  clock := 0
  configs := hubs.foldl (fun configs hub =>
    configs.insert hub.1
      { backupDir := "/backups", backupTime := hub.2, backupEnabled := true, since := 0 }) ∅
  poke := none
  phase := .evaluating 0
  starts := []

/-- At each of the minutes, what happens. -/
def timetable (moves : List (Int × Move)) : List Event :=
  moves.map fun move => ⟨minutes move.1, move.2⟩

/-- The hub at 03:30 is backed up in one minute, the other one at 03:35, and a day later the
first one again. -/
def quickDay : List Event :=
  timetable [(0, .evaluate), (210, .fire), (210, .start), (211, .finish), (211, .pass),
    (211, .pass), (211, .evaluate), (215, .fire), (215, .pass), (215, .start), (216, .finish),
    (216, .pass), (216, .evaluate), (1650, .fire), (1650, .start), (1651, .finish), (1651, .pass),
    (1651, .pass), (1651, .evaluate), (1655, .fire)]

def twoHubs : State := atMidnight [("a", "03:30"), ("b", "03:35")]

theorem twoHubs_begins : Begins twoHubs where
  phase := rfl
  poke := rfl
  since slug cfg h := by
    have hall : ∀ slug ∈ twoHubs.configs.keys, ∀ cfg ∈ twoHubs.configs.lookup slug,
        cfg.since ≤ twoHubs.clock := by decide +kernel
    refine hall slug ?_ cfg h
    rw [← AList.mem_keys, ← AList.lookup_isSome, h]
    rfl

/-- Both hubs were backed up at their times. -/
theorem backups_never_skipped_quickDay :
    ∃ s, Run (Steps 0) (Smooth 0) twoHubs quickDay s ∧
      Started s.starts "a" (minutes 210) ∧ Started s.starts "b" (minutes 215) := by
  have hsome : (Run.exec (step 0) (Smooth 0) quickDay twoHubs).isSome := by decide +kernel
  obtain ⟨s, hs⟩ := Option.isSome_iff_exists.mp hsome
  have hend : ∀ s ∈ Run.exec (step 0) (Smooth 0) quickDay twoHubs,
      s.clock = minutes 1655 ∧ s.configs.lookup "a" = twoHubs.configs.lookup "a" ∧
        s.configs.lookup "b" = twoHubs.configs.lookup "b" := by decide +kernel
  obtain ⟨hclock, ha, hb⟩ := hend s hs
  have hrun := Run.of_exec quickDay hs
  have hnever := backups_never_skipped twoHubs_begins hrun
  refine ⟨s, hrun, hnever "a" _ ?_ (by decide) ?_, hnever "b" _ ?_ (by decide) ?_⟩
  · rw [Slot, ha]
    exact ⟨_, rfl, by decide +kernel, by decide, by decide⟩
  · rw [hclock]
    decide
  · rw [Slot, hb]
    exact ⟨_, rfl, by decide +kernel, by decide, by decide⟩
  · rw [hclock]
    decide

/-- The first backup takes ten minutes, in which the other hub's time comes. -/
def slowDay : List Event :=
  timetable [(0, .evaluate), (210, .fire), (210, .start), (220, .finish), (220, .pass),
    (220, .pass), (220, .evaluate), (1650, .fire), (1650, .start), (1655, .finish)]

/-- Settings are saved at the very time of the backup, and the poke is taken before the
timer. -/
def pokedDay : List Event :=
  timetable [(0, .evaluate), (210, .save "b" "/backups" "03:35" true), (210, .takePoke),
    (210, .evaluate), (215, .fire), (215, .pass), (215, .start), (216, .finish), (216, .pass),
    (216, .evaluate), (1650, .fire)]

/-- A hub whose slot leads to no backup in a run. -/
def Skips (es : List Event) (slug : String) (slot : Int) : Prop :=
  ∃ s, Run (Steps 0) always twoHubs es s ∧ Slot 0 s.configs slug slot ∧ twoHubs.clock < slot ∧
    slot + nanosPerDay ≤ s.clock ∧ ¬ Started s.starts slug slot

/-- **A backup is skipped** when its time comes while another hub is backed up, and when a
poke is taken at its time. -/
theorem backups_skipped :
    Begins twoHubs ∧ Skips slowDay "b" (minutes 215) ∧ Skips pokedDay "a" (minutes 210) := by
  have hskips : ∀ (es : List Event) (slug : String) (slot : Int),
      (Run.exec (step 0) always es twoHubs).isSome → (∀ s ∈ Run.exec (step 0) always es twoHubs,
        s.configs.lookup slug = twoHubs.configs.lookup slug ∧ slot + nanosPerDay ≤ s.clock ∧
          ¬ Started s.starts slug slot) → Slot 0 twoHubs.configs slug slot →
      twoHubs.clock < slot → Skips es slug slot := by
    intro es slug slot hsome hend hslot hlt
    obtain ⟨s, hs⟩ := Option.isSome_iff_exists.mp hsome
    obtain ⟨hcfg, hlate, hnot⟩ := hend s hs
    refine ⟨s, Run.of_exec es hs, ?_, hlt, hlate, hnot⟩
    unfold Slot
    rw [hcfg]
    exact hslot
  refine ⟨twoHubs_begins, hskips _ _ _ (by decide +kernel) (by decide +kernel) ?_ (by decide),
    hskips _ _ _ (by decide +kernel) (by decide +kernel) ?_ (by decide)⟩
  · exact ⟨_, rfl, by decide +kernel, by decide, by decide⟩
  · exact ⟨_, rfl, by decide +kernel, by decide, by decide⟩

end FusionLocalServer.Backup.Scheduler
