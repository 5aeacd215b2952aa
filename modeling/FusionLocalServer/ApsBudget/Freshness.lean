import FusionLocalServer.ApsBudget.Flights

/-!
# How fresh an answer is

Two laws of the cache. Calls for one key that do not overlap return the answers of fetches in
the order of the fetches; and a call that begins after a subject was invalidated does not return
what was read before the writes that had completed. The first needs that no outdated answer
stays stored when a newer one is too large to be, the second that no fetch for the subject is in
flight with older data when it is invalidated.
-/

namespace ApsBudget.Coalesce

open Lib (getElem?_snoc getElem?_set_cases Run)
open Cache (Huge mem_invalidateSubject)

namespace World

variable {V J : Type} {cfg : Setup V} {marshal : J → Option String} {w w' : World V} {e : Event V}

/-! ## After an invalidation -/

/-- What was read for the key is no older than the writes the invalidations were for. -/
def Recent (marshal : J → Option String) (marks : List (String × Nat)) (key : String)
    (version : Nat) : Prop :=
  ∀ m ∈ marks, BuiltFor marshal m.1 key → m.2 ≤ version

theorem Recent.mono {marks marks' : List (String × Nat)} {key : String} {version : Nat}
    (h : Recent marshal marks key version) (hsub : marks' ⊆ marks) :
    Recent marshal marks' key version :=
  fun m hm => h m (hsub hm)

/-- No fetch for the subject is in flight with data older than the writes completed when the
subject is invalidated. -/
def Settled (marshal : J → Option String) (w : World V) : Event V → Prop
  | .invalidate sub => sub ≠ "" → ∀ f ∈ w.flights, f.direct = false → f.landed = false →
      BuiltFor marshal sub f.key → ∀ version, f.read = some version → w.written ≤ version
  | _ => True

/-- Nothing that a call begun later can come by is older than the invalidations. -/
structure Fresh (marshal : J → Option String) (w : World V) : Prop where
  stored : ∀ e ∈ w.cache.lru, Recent marshal w.marks e.key e.val.version
  inFlight : ∀ f ∈ w.flights, f.direct = false → f.landed = false →
    ∀ version, f.read = some version → Recent marshal w.marks f.key version
  waiting : ∀ c ∈ w.calls, ∀ n, c.phase = .waiting n → ∀ f, w.flights[n]? = some f →
    ∀ version, f.read = some version → Recent marshal c.marks c.key version
  returned : ∀ c ∈ w.calls, ∀ a, c.phase = .returned (some a) →
    Recent marshal c.marks c.key a.version

/-- Every mark is of writes the upstream has had. -/
theorem recent_version (h : Sound cfg w) {marks : List (String × Nat)} (hsub : marks ⊆ w.marks)
    (key : String) : Recent marshal marks key w.version :=
  fun m hm _ => Nat.le_trans (h.marks m (hsub hm)) h.written

/-- What a flight has read it had read before, or it is read now. -/
theorem Outcome.reads (hout : Outcome cfg w e w') {n : Nat} {f' : Flight V} {version : Nat}
    (hf' : w'.flights[n]? = some f') (hread : f'.read = some version) :
    (∃ f, w.flights[n]? = some f ∧ f.read = some version ∧ f'.key = f.key ∧
      f'.direct = f.direct ∧ (f'.landed = false → f.landed = false)) ∨ version = w.version := by
  have hsame : w.flights[n]? = some f' → ∃ f, w.flights[n]? = some f ∧ f.read = some version ∧
      f'.key = f.key ∧ f'.direct = f.direct ∧ (f'.landed = false → f.landed = false) :=
    fun hf => ⟨f', hf, hread, rfl, rfl, id⟩
  cases hout with
  | tick | write | complete | invalidate | hit | miss | joined | finished | gaveUp =>
    exact .inl (hsame hf')
  | direct fresh hkey =>
    rcases getElem?_snoc.mp hf' with hf' | ⟨-, rfl⟩
    · exact .inl (hsame hf')
    · cases hread
  | led hcall hphase hgroup =>
    rcases getElem?_snoc.mp hf' with hf' | ⟨-, rfl⟩
    · exact .inl (hsame hf')
    · cases hread
  | served hf _ _ =>
    rcases getElem?_set_cases hf' with ⟨rfl, rfl⟩ | ⟨-, hf'⟩
    · exact .inr (Option.some.inj hread).symm
    · exact .inl (hsame hf')
  | answered hf _ _ =>
    rw [flights_answer] at hf'
    rcases getElem?_set_cases hf' with ⟨rfl, rfl⟩ | ⟨-, hf'⟩
    · exact .inl ⟨_, hf, hread, rfl, rfl, id⟩
    · exact .inl (hsame hf')
  | failed hf _ =>
    rcases getElem?_set_cases hf' with ⟨rfl, rfl⟩ | ⟨-, hf'⟩
    · exact .inl ⟨_, hf, hread, rfl, rfl, id⟩
    · exact .inl (hsame hf')
  | landed hf _ hlanded =>
    rw [flights_land] at hf'
    rcases getElem?_set_cases hf' with ⟨rfl, rfl⟩ | ⟨-, hf'⟩
    · exact .inl ⟨_, hf, hread, rfl, rfl, fun _ => hlanded⟩
    · exact .inl (hsame hf')

/-- One event. -/
theorem Fresh.step (h : Fresh marshal w) (hsound : Sound cfg w) (hsettled : Settled marshal w e)
    (hout : Outcome cfg w e w') : Fresh marshal w' := by
  obtain ⟨-, -, -, hmarks⟩ := hout.marks
  -- what the marks add concerns neither what is stored nor what is in flight
  have hstored : ∀ x ∈ w'.cache.lru, Recent marshal w.marks x.key x.val.version := by
    intro x hx
    rcases hout.stores hsound hx with hx | ⟨f, hf, hdirect, hlanded, hkey, hread⟩
    · exact h.stored x hx
    · exact hkey ▸ h.inFlight f (List.mem_of_getElem? hf) hdirect hlanded _ hread
  have hinFlight : ∀ f' ∈ w'.flights, f'.direct = false → f'.landed = false →
      ∀ version, f'.read = some version → Recent marshal w.marks f'.key version := by
    intro f' hf' hdirect hlanded version hread
    obtain ⟨n, hn⟩ := List.getElem?_of_mem hf'
    rcases hout.reads hn hread with ⟨f, hf, hread, hkey, hd, hl⟩ | rfl
    · exact hkey ▸ h.inFlight f (List.mem_of_getElem? hf) (hd ▸ hdirect) (hl hlanded) version hread
    · exact recent_version hsound (List.Subset.refl _) _
  refine ⟨fun x hx => ?_, fun f' hf' hdirect hlanded version hread => ?_,
    fun c hc n hn f' hf' version hread => ?_, fun c hc a ha => ?_⟩
  · rcases hmarks with hmarks | ⟨sub, hsub, rfl, hmarks, hcache⟩
    · exact hmarks ▸ hstored x hx
    · rw [hmarks]
      intro m hm hbuilt
      rcases List.mem_append.mp hm with hm | hm
      · exact hstored x hx m hm hbuilt
      · cases List.mem_singleton.mp hm
        exact absurd hbuilt.needle ((mem_invalidateSubject hsub).mp (hcache ▸ hx)).2
  · rcases hmarks with hmarks | ⟨sub, hsub, rfl, hmarks, hcache⟩
    · exact hmarks ▸ hinFlight f' hf' hdirect hlanded version hread
    · rw [hmarks]
      intro m hm hbuilt
      rcases List.mem_append.mp hm with hm | hm
      · exact hinFlight f' hf' hdirect hlanded version hread m hm hbuilt
      · cases List.mem_singleton.mp hm
        cases hout
        exact hsettled hsub f' hf' hdirect hlanded hbuilt version hread
  · obtain ⟨i, hi⟩ := List.getElem?_of_mem hc
    rcases hout.calls hi with hc | ⟨-, hbegun⟩ | ⟨c₀, hc₀, hmoved⟩
    · rcases hout.reads hf' hread with ⟨f, hf, hread, -⟩ | rfl
      · exact h.waiting c (List.mem_of_getElem? hc) n hn f hf version hread
      · exact recent_version hsound (hsound.callMarks c (List.mem_of_getElem? hc)) _
    · obtain ⟨rfl, hflights⟩ := hbegun.waiting n hn
      rw [hflights, List.getElem?_concat_length] at hf'
      cases hf'
      cases hread
    · have hsub : c.marks ⊆ w.marks :=
        hmoved.marks ▸ hsound.callMarks c₀ (List.mem_of_getElem? hc₀)
      obtain ⟨-, ⟨hgroup, -⟩ | ⟨rfl, hflights⟩⟩ := hmoved.waiting n hn
      · obtain ⟨g, hg, hgk, hgd, hgl⟩ := hsound.flights.group c.key n hgroup
        rcases hout.reads hf' hread with ⟨f, hf, hread, -⟩ | rfl
        · cases hg.symm.trans hf
          exact (hgk ▸ h.inFlight g (List.mem_of_getElem? hg) hgd hgl version hread).mono hsub
        · exact recent_version hsound hsub _
      · rw [hflights, List.getElem?_concat_length] at hf'
        cases hf'
        cases hread
  · obtain ⟨i, hi⟩ := List.getElem?_of_mem hc
    rcases hout.calls hi with hc | ⟨-, hbegun⟩ | ⟨c₀, hc₀, hmoved⟩
    · exact h.returned c (List.mem_of_getElem? hc) a ha
    · obtain ⟨x, hx, hxk, -, rfl⟩ := hbegun.returned a ha
      exact hbegun.marks ▸ hxk ▸ h.stored x hx
    · obtain ⟨n, f, hn, hf, hresult⟩ := hmoved.returned a ha
      obtain ⟨-, hread⟩ := hsound.flights.answers n f a hf hresult
      rw [hmoved.key, hmoved.marks]
      exact h.waiting c₀ (List.mem_of_getElem? hc₀) n hn f hf _ hread

theorem fresh_init (marshal : J → Option String) : Fresh marshal ({} : World V) := by
  refine ⟨?_, ?_, ?_, ?_⟩ <;> simp

/-- In every interleaving in which no fetch for a subject is in flight with outdated data when it
is invalidated, a call for one of the subject's keys that begins afterwards returns nothing that
was read before the writes that had completed by then. -/
theorem invalidation_effective {es : List (Event V)}
    (hrun : Run (Happens cfg) (Settled marshal) {} es w) :
    ∀ c ∈ w.calls, ∀ a, c.phase = .returned (some a) →
      ∀ m ∈ c.marks, BuiltFor marshal m.1 c.key → m.2 ≤ a.version := by
  have hkept : Sound cfg w ∧ Fresh marshal w := by
    refine hrun.invariant (P := fun w => Sound cfg w ∧ Fresh marshal w)
      ⟨sound_init cfg, fresh_init marshal⟩ ?_
    rintro w e w' ⟨hsound, hfresh⟩ hsettled hstep
    have hout := step_cases hstep
    exact ⟨hsound.step hout, hfresh.step hsound hsettled hout⟩
  exact fun c hc a ha => hkept.2.returned c hc a ha

/-- Numbers as `json.Marshal` writes them. -/
def marshalInt (n : Int) : Option String := some (toString n)

def projectsKey : String :=
  Key marshalInt "ep" "GetProjects" "u1" (({} : Std.ExtTreeMap String (Var Int)).insert "hubId" (.text "h"))

/-- Ten seconds for every key, and answers that all weigh what they say. -/
def smallSetup : Setup Int where
  lim := { maxEntries := 16, maxBytes := 320, size := id }
  ttl _ := 10 * second

/-- A call, its fetch, and a call after a write and the invalidation. -/
def writeBetween : List (Event Int) :=
  [.look projectsKey false, .join 0, .serve 0, .answer 0 (some 5), .land 0, .finish 0,
    .write, .complete 1, .invalidate "u1",
    .look projectsKey false, .join 1, .serve 1, .answer 1 (some 6), .land 1, .finish 1]

/-- All has landed when a subject is invalidated. -/
def Quiet (w : World Int) : Event Int → Prop
  | .invalidate _ => ∀ f ∈ w.flights, f.landed = true
  | _ => True

instance (w : World Int) (e : Event Int) : Decidable (Quiet w e) := by
  unfold Quiet
  split <;> infer_instance

theorem invalidation_effective_writeBetween :
    ∃ w, Run (Happens smallSetup) (Settled marshalInt) {} writeBetween w ∧
      (∃ c ∈ w.calls, c.marks = [("u1", 1)] ∧ c.phase = .returned (some ⟨6, 1, 1⟩)) ∧
      ∀ c ∈ w.calls, ∀ a, c.phase = .returned (some a) →
        ∀ m ∈ c.marks, BuiltFor marshalInt m.1 c.key → m.2 ≤ a.version := by
  have hsome : ∃ w, Run.exec (step smallSetup) Quiet writeBetween {} = some w ∧
      ∃ c ∈ w.calls, c.marks = [("u1", 1)] ∧ c.phase = .returned (some ⟨6, 1, 1⟩) := by
    exact ⟨_, rfl, _, List.mem_of_getElem? (i := 1) rfl, rfl, rfl⟩
  obtain ⟨w, hw, hcall⟩ := hsome
  have hrun : Run (Happens smallSetup) (Settled marshalInt) {} writeBetween w := by
    refine (Run.of_exec writeBetween hw).mono fun w e hquiet => ?_
    cases e with
    | invalidate sub =>
      exact fun _ f hf _ hlanded => absurd (hquiet f hf) (Bool.eq_false_iff.mp hlanded)
    | _ => trivial
  exact ⟨w, hrun, hcall, invalidation_effective hrun⟩

/-- The same call's fetch has read before the write, and returns after the invalidation. -/
def writeInFlight : List (Event Int) :=
  [.look projectsKey false, .join 0, .serve 0, .write, .complete 1, .invalidate "u1",
    .look projectsKey false, .join 1, .answer 0 (some 5), .land 0, .finish 1]

/-- The second call joins the fetch and gets what it read, and another would find it stored. -/
theorem invalidation_overtaken :
    ∃ w, Run (Happens smallSetup) Lib.always {} writeInFlight w ∧
      ∃ c ∈ w.calls, ∃ a, c.phase = .returned (some a) ∧
        ∃ m ∈ c.marks, BuiltFor marshalInt m.1 c.key ∧ a.version < m.2 := by
  have hsome : ∃ w, Run.exec (step smallSetup) Lib.always writeInFlight {} = some w ∧
      ∃ c ∈ w.calls, c.key = projectsKey ∧ c.marks = [("u1", 1)] ∧
        c.phase = .returned (some ⟨5, 0, 0⟩) :=
    ⟨_, rfl, _, List.mem_of_getElem? (i := 1) rfl, rfl, rfl, rfl⟩
  obtain ⟨w, hw, c, hc, hkey, hmarks, hphase⟩ := hsome
  have hbuilt : BuiltFor marshalInt "u1" c.key := hkey ▸ ⟨_, _, _, rfl⟩
  exact ⟨w, Run.of_exec writeInFlight hw, c, hc, _, hphase, ("u1", 1), hmarks ▸ List.mem_cons_self,
    hbuilt, Nat.zero_lt_one⟩

end World

end ApsBudget.Coalesce
