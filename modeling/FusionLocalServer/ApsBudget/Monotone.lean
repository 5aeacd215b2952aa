import FusionLocalServer.ApsBudget.Freshness

/-!
# Answers in the order of their fetches

Calls for one key that do not overlap each return the answer of a fetch that is no earlier than
those the calls before them returned. It takes that an answer too large to be stored does not
leave an older one stored, which the next call would find.
-/

namespace ApsBudget.Coalesce

open Lib (getElem?_snoc getElem?_set_cases getElem?_modify_cases Run)
open Cache (Huge)

namespace World

variable {V : Type} {cfg : Setup V} {k : String} {w w' : World V} {e : Event V}

/-- The calls for the key do not overlap: one begins when the others have returned. -/
def Alone (k : String) (w : World V) : Event V → Prop
  | .look key _ => key = k → ∀ c ∈ w.calls, c.key = k → ∃ r, c.phase = .returned r
  | _ => True

instance (c : Call V) : Decidable (∃ r, c.phase = .returned r) :=
  match _hphase : c.phase with
  | .returned r => .isTrue ⟨r, rfl⟩
  | .missed => .isFalse fun ⟨_, hr⟩ => nomatch hr
  | .waiting _ => .isFalse fun ⟨_, hr⟩ => nomatch hr

instance (k : String) (w : World V) (e : Event V) : Decidable (Alone k w e) := by
  unfold Alone
  split <;> infer_instance

/-- When a fetch for the key returns an answer that is too large to be stored, what is stored for
the key has expired. -/
def NothingOlder (cfg : Setup V) (k : String) (w : World V) : Event V → Prop
  | .answer n (some v) => ∀ f, w.flights[n]? = some f → f.key = k → f.direct = false →
      Huge cfg.lim v → ∀ x ∈ w.cache.lru, x.key = k → x.expires ≤ w.now
  | _ => True

/-- The answers returned for the key, in their order. -/
def returnedFor (k : String) (w : World V) : List (Answer V) :=
  (w.log.filter fun p => p.1 = k).map (·.2)

/-- The state of the key between steps. -/
structure Ordered (cfg : Setup V) (k : String) (w : World V) : Prop where
  /-- At most one call for the key is on its way. -/
  one : ∀ (i j : Nat) (c c' : Call V), w.calls[i]? = some c → w.calls[j]? = some c' → c.key = k →
    c'.key = k → c.Active → c'.Active → i = j
  /-- The fetch in flight is the key's last. -/
  group : ∀ n, w.group k = some n → ∀ (m : Nat) (f : Flight V), w.flights[m]? = some f →
    f.key = k → m ≤ n
  /-- A call waits for the key's last fetch. -/
  waiting : ∀ c ∈ w.calls, c.key = k → ∀ n, c.phase = .waiting n →
    ∀ (m : Nat) (f : Flight V), w.flights[m]? = some f → f.key = k → m ≤ n
  /-- What is stored and has not expired is the last answer. -/
  stored : ∀ x ∈ w.cache.lru, x.key = k → w.now < x.expires →
    ∀ (m : Nat) (f : Flight V) (a : Answer V), w.flights[m]? = some f → f.key = k →
      f.result = some (some a) → m ≤ x.val.fetch
  coalesced : ∀ x ∈ w.cache.lru, x.key = k → Coalesced cfg k
  returned : (returnedFor k w).Pairwise fun a b => a.fetch ≤ b.fetch

/-- The flights after an event: those before, with their keys, or a new one at the end, which is
direct or is the first in flight for its key. -/
theorem Outcome.flight (hsound : Sound cfg w) (hout : Outcome cfg w e w') {m : Nat}
    {f' : Flight V} (hf' : w'.flights[m]? = some f') :
    (∃ f, w.flights[m]? = some f ∧ f'.key = f.key) ∨
    (m = w.flights.length ∧ ((¬ Coalesced cfg f'.key ∧ ∃ fresh, e = .look f'.key fresh) ∨
      (Coalesced cfg f'.key ∧ w.group f'.key = none ∧
        ∃ (i : Nat) (c : Call V), w.calls[i]? = some c ∧ c.key = f'.key ∧ c.phase = .missed))) := by
  have hsame : w.flights[m]? = some f' → ∃ f, w.flights[m]? = some f ∧ f'.key = f.key :=
    fun hf => ⟨f', hf, rfl⟩
  cases hout with
  | tick | write | complete | invalidate | hit | miss | joined | finished | gaveUp =>
    exact .inl (hsame hf')
  | direct fresh hkey =>
    rcases getElem?_snoc.mp hf' with hf' | ⟨hm, rfl⟩
    · exact .inl (hsame hf')
    · exact .inr ⟨hm, .inl ⟨hkey, fresh, rfl⟩⟩
  | led hcall hphase hgroup =>
    rcases getElem?_snoc.mp hf' with hf' | ⟨hm, rfl⟩
    · exact .inl (hsame hf')
    · exact .inr ⟨hm, .inr ⟨hsound.missed _ (List.mem_of_getElem? hcall) hphase, hgroup, _, _, hcall,
        rfl, hphase⟩⟩
  | served hf _ _ | failed hf _ =>
    rcases getElem?_set_cases hf' with ⟨rfl, rfl⟩ | ⟨-, hf'⟩
    · exact .inl ⟨_, hf, rfl⟩
    · exact .inl (hsame hf')
  | answered hf _ _ =>
    rw [flights_answer] at hf'
    rcases getElem?_set_cases hf' with ⟨rfl, rfl⟩ | ⟨-, hf'⟩
    · exact .inl ⟨_, hf, rfl⟩
    · exact .inl (hsame hf')
  | landed hf _ _ =>
    rw [flights_land] at hf'
    rcases getElem?_set_cases hf' with ⟨rfl, rfl⟩ | ⟨-, hf'⟩
    · exact .inl ⟨_, hf, rfl⟩
    · exact .inl (hsame hf')

/-- The group after an event. -/
theorem Outcome.group_cases (hout : Outcome cfg w e w') {key : String} {n : Nat}
    (hn : w'.group key = some n) :
    w.group key = some n ∨
      (n = w.flights.length ∧ w'.flights = w.flights ++ [{ key, direct := false }]) := by
  cases hout with
  | tick | write | complete | invalidate | direct | hit | miss | joined | served | failed
    | finished | gaveUp => exact .inl hn
  | led hcall hphase hgroup =>
    unfold lead at hn ⊢
    dsimp only [setCall] at hn
    rw [Function.update_apply] at hn
    split at hn
    · next heq =>
      cases hn
      exact .inr ⟨rfl, heq ▸ rfl⟩
    · exact .inl hn
  | answered hf _ _ =>
    unfold answer at hn
    dsimp only at hn
    split at hn <;> exact .inl hn
  | landed hf _ _ =>
    unfold land at hn
    dsimp only at hn
    split at hn
    · dsimp only at hn
      rw [Function.update_apply] at hn
      split at hn
      · cases hn
      · exact .inl hn
    · exact .inl hn

/-- What a call returns: what is stored for its key, or the answer of the fetch it waits for. -/
theorem Outcome.log_cases (hout : Outcome cfg w e w') :
    w'.log = w.log ∨ ∃ key a, w'.log = w.log ++ [(key, a)] ∧
      ((∃ x ∈ w.cache.lru, x.key = key ∧ w.now < x.expires ∧ x.val = a) ∨
        ∃ c ∈ w.calls, c.key = key ∧ ∃ (n : Nat) (f : Flight V), c.phase = .waiting n ∧
          w.flights[n]? = some f ∧ f.result = some (some a)) := by
  cases hout with
  | tick | write | complete | invalidate | direct | miss | joined | led | served | failed
    | gaveUp => exact .inl rfl
  | hit hkey he hek hlt hcache => exact .inr ⟨_, _, rfl, .inl ⟨_, he, hek, hlt, rfl⟩⟩
  | answered hf _ _ =>
    left
    unfold answer
    dsimp only
    split <;> rfl
  | landed hf _ _ =>
    left
    unfold land
    dsimp only
    split <;> rfl
  | @finished i n c f result hcall hphase hf hresult hlanded =>
    cases result with
    | none => exact .inl (List.append_nil _)
    | some a =>
      exact .inr ⟨_, _, rfl, .inr ⟨c, List.mem_of_getElem? hcall, rfl, n, f, hphase, hf, hresult⟩⟩

/-- A flight's answer was there, or the event brings it. -/
theorem Outcome.result_cases (hout : Outcome cfg w e w') {m : Nat} {f' : Flight V} {a : Answer V}
    (hf' : w'.flights[m]? = some f') (ha : f'.result = some (some a)) :
    (∃ f, w.flights[m]? = some f ∧ f'.key = f.key ∧ f.result = some (some a)) ∨
      ∃ f, w.flights[m]? = some f ∧ f'.key = f.key ∧ f.result = none ∧ a.fetch = m ∧
        e = .answer m (some a.val) ∧ w' = w.answer cfg m f (some a) := by
  have hsame : w.flights[m]? = some f' →
      ∃ f, w.flights[m]? = some f ∧ f'.key = f.key ∧ f.result = some (some a) :=
    fun hf => ⟨f', hf, rfl, ha⟩
  cases hout with
  | tick | write | complete | invalidate | hit | miss | joined | finished | gaveUp =>
    exact .inl (hsame hf')
  | direct fresh hkey =>
    rcases getElem?_snoc.mp hf' with hf' | ⟨hm, rfl⟩
    · exact .inl (hsame hf')
    · cases ha
  | led hcall hphase hgroup =>
    rcases getElem?_snoc.mp hf' with hf' | ⟨hm, rfl⟩
    · exact .inl (hsame hf')
    · cases ha
  | served hf _ _ =>
    rcases getElem?_set_cases hf' with ⟨rfl, rfl⟩ | ⟨-, hf'⟩
    · exact .inl ⟨_, hf, rfl, ha⟩
    · exact .inl (hsame hf')
  | failed hf _ =>
    rcases getElem?_set_cases hf' with ⟨rfl, rfl⟩ | ⟨-, hf'⟩
    · cases ha
    · exact .inl (hsame hf')
  | answered hf _ hresult =>
    rw [flights_answer] at hf'
    rcases getElem?_set_cases hf' with ⟨rfl, rfl⟩ | ⟨-, hf'⟩
    · cases ha
      exact .inr ⟨_, hf, rfl, hresult, rfl, rfl, rfl⟩
    · exact .inl (hsame hf')
  | landed hf _ _ =>
    rw [flights_land] at hf'
    rcases getElem?_set_cases hf' with ⟨rfl, rfl⟩ | ⟨-, hf'⟩
    · exact .inl ⟨_, hf, rfl, ha⟩
    · exact .inl (hsame hf')

theorem Outcome.now_le (hout : Outcome cfg w e w') : w.now ≤ w'.now := by
  cases hout with
  | tick d => exact Int.le_add_of_nonneg_right (Int.natCast_nonneg d)
  | answered =>
    unfold answer
    dsimp only
    split <;> exact Int.le_refl _
  | landed =>
    unfold land
    dsimp only
    split <;> exact Int.le_refl _
  | _ => exact Int.le_refl _

/-! ## One event -/

/-- The calls for the key on their way after an event: one that was, or the one that begins, when
no other is. -/
theorem Ordered.one_step (h : Ordered cfg k w) (halone : Alone k w e)
    (hout : Outcome cfg w e w') : ∀ (i j : Nat) (c c' : Call V), w'.calls[i]? = some c →
      w'.calls[j]? = some c' → c.key = k → c'.key = k → c.Active → c'.Active → i = j := by
  -- what is on its way was, or it begins and nothing else was
  have hback : ∀ (i : Nat) (c : Call V), w'.calls[i]? = some c → c.key = k → c.Active →
      (∃ c₀, w.calls[i]? = some c₀ ∧ c₀.key = k ∧ c₀.Active) ∨
      (i = w.calls.length ∧ ∀ c₀ ∈ w.calls, c₀.key = k → ¬ c₀.Active) := by
    intro i c hc hkey hactive
    rcases hout.calls hc with hc | ⟨hi, hbegun⟩ | ⟨c₀, hc₀, hmoved⟩
    · exact .inl ⟨c, hc, hkey, hactive⟩
    · obtain ⟨fresh, rfl⟩ := hbegun.look
      refine .inr ⟨hi, fun c₀ hc₀ hk hact => ?_⟩
      obtain ⟨r, hr⟩ := halone hkey c₀ hc₀ hk
      rcases hact with hact | ⟨n, hact⟩ <;> exact (nomatch hr.symm.trans hact)
    · exact .inl ⟨c₀, hc₀, hmoved.key ▸ hkey, hmoved.active⟩
  intro i j c c' hc hc' hkey hkey' hact hact'
  rcases hback i c hc hkey hact with ⟨c₀, hc₀, hk, ha⟩ | ⟨hi, hnone⟩
  · rcases hback j c' hc' hkey' hact' with ⟨c₁, hc₁, hk', ha'⟩ | ⟨hj, hnone⟩
    · exact h.one i j c₀ c₁ hc₀ hc₁ hk hk' ha ha'
    · exact absurd ha (hnone c₀ (List.mem_of_getElem? hc₀) hk)
  · rcases hback j c' hc' hkey' hact' with ⟨c₁, hc₁, hk', ha'⟩ | ⟨hj, -⟩
    · exact absurd ha' (hnone c₁ (List.mem_of_getElem? hc₁) hk')
    · exact hi.trans hj.symm

theorem Ordered.group_step (h : Ordered cfg k w) (hsound : Sound cfg w)
    (hout : Outcome cfg w e w') : ∀ n, w'.group k = some n → ∀ (m : Nat) (f : Flight V),
      w'.flights[m]? = some f → f.key = k → m ≤ n := by
  intro n hn m f hf hkey
  rcases hout.group_cases hn with hn | ⟨rfl, hflights⟩
  · rcases hout.flight hsound hf with ⟨f₀, hf₀, hk⟩ | ⟨-, ⟨hnot, -⟩ | ⟨-, hnone, -⟩⟩
    · exact h.group n hn m f₀ hf₀ (hk ▸ hkey)
    · -- a key that has a fetch in flight goes through the cache
      obtain ⟨g, hg, hgk, hgd, -⟩ := hsound.flights.group k n hn
      have hdirect := (hsound.flights.direct g (List.mem_of_getElem? hg)).mpr
      rw [hgk, hgd] at hdirect
      exact (nomatch hdirect (hkey ▸ hnot))
    · rw [hkey, hn] at hnone
      cases hnone
  · rw [hflights] at hf
    have hlt := (List.getElem?_eq_some_iff.mp hf).1
    rw [List.length_append] at hlt
    exact Nat.lt_succ_iff.mp hlt

theorem Ordered.waiting_step (h : Ordered cfg k w) (hsound : Sound cfg w) (halone : Alone k w e)
    (hout : Outcome cfg w e w') : ∀ c ∈ w'.calls, c.key = k → ∀ n, c.phase = .waiting n →
      ∀ (m : Nat) (f : Flight V), w'.flights[m]? = some f → f.key = k → m ≤ n := by
  intro c hc hkey n hn m f hf hfk
  obtain ⟨i, hi⟩ := List.getElem?_of_mem hc
  rcases hout.calls hi with hc | ⟨-, hbegun⟩ | ⟨c₀, hc₀, hmoved⟩
  · rcases hout.flight hsound hf with ⟨f₀, hf₀, hk⟩ | ⟨-, ⟨-, fresh, rfl⟩ | ⟨-, -, j, c₁, hc₁, hk, hmiss⟩⟩
    · exact h.waiting c (List.mem_of_getElem? hc) hkey n hn m f₀ hf₀ (hk ▸ hfk)
    · -- no call begins while this one waits
      obtain ⟨r, hr⟩ := halone hfk c (List.mem_of_getElem? hc) hkey
      exact (nomatch hr.symm.trans hn)
    · -- nor is there another that could begin a fetch
      have hij := h.one i j c c₁ hc hc₁ hkey (hk.trans hfk) (.inr ⟨n, hn⟩) (.inl hmiss)
      subst hij
      cases hc.symm.trans hc₁
      exact (nomatch hmiss.symm.trans hn)
  · obtain ⟨rfl, hflights⟩ := hbegun.waiting n hn
    have hlt := (List.getElem?_eq_some_iff.mp (hflights ▸ hf)).1
    rw [List.length_append] at hlt
    exact Nat.lt_succ_iff.mp hlt
  · obtain ⟨-, ⟨hgroup, hflights⟩ | ⟨rfl, hflights⟩⟩ := hmoved.waiting n hn
    · exact h.group n (hkey ▸ hgroup) m f (hflights ▸ hf) hfk
    · have hlt := (List.getElem?_eq_some_iff.mp (hflights ▸ hf)).1
      rw [List.length_append] at hlt
      exact Nat.lt_succ_iff.mp hlt

theorem Ordered.coalesced_step (h : Ordered cfg k w) (hsound : Sound cfg w)
    (hout : Outcome cfg w e w') : ∀ x ∈ w'.cache.lru, x.key = k → Coalesced cfg k := by
  intro x hx hkey
  rcases hout.stores hsound hx with hx | ⟨f, hf, hdirect, -, hk, -⟩
  · exact h.coalesced x hx hkey
  · by_contra hnot
    have hiff := hsound.flights.direct f (List.mem_of_getElem? hf)
    rw [hdirect, ← hk, hkey] at hiff
    exact (nomatch hiff.mpr hnot)

theorem Ordered.stored_step (h : Ordered cfg k w) (hsound : Sound cfg w)
    (holder : NothingOlder cfg k w e) (hout : Outcome cfg w e w') :
    ∀ x ∈ w'.cache.lru, x.key = k → w'.now < x.expires →
      ∀ (m : Nat) (f : Flight V) (a : Answer V), w'.flights[m]? = some f → f.key = k →
        f.result = some (some a) → m ≤ x.val.fetch := by
  intro x hx hkey hlt m f' a hf' hk' ha
  have hlt' : w.now < x.expires := Int.lt_of_le_of_lt hout.now_le hlt
  rcases hout.result_cases hf' ha with ⟨f, hf, hk, ha⟩ | ⟨f, hf, hk, hnone, rfl, rfl, rfl⟩
  · rcases hout.stores hsound hx with hx | ⟨g, hg, hdirect, hlanded, hgk, -⟩
    · exact h.stored x hx hkey hlt' m f a hf (hk ▸ hk') ha
    · -- the answer that is stored is of the fetch in flight, the key's last
      have hgroup := hsound.flights.inFlight _ g hg hdirect hlanded
      rw [← hgk, hkey] at hgroup
      exact h.group _ hgroup m f hf (hk ▸ hk')
  · rcases mem_answer hx with ⟨hx, hleft⟩ | ⟨-, hval, -⟩
    · cases hdirect : f.direct with
      | true =>
        have hnot := (hsound.flights.direct f (List.mem_of_getElem? hf)).mp hdirect
        exact absurd (h.coalesced x hx hkey) (hk' ▸ hk ▸ hnot)
      | false =>
        rcases hleft (hkey.trans (hk'.symm.trans hk)) with hdir | hhuge
        · exact (nomatch hdirect.symm.trans hdir)
        · have hexpired := holder f hf (hk ▸ hk') hdirect hhuge x hx hkey
          exact absurd hexpired (Int.not_le.mpr hlt')
    · exact Nat.le_of_eq (congrArg Answer.fetch hval.symm)

theorem Ordered.returned_step (h : Ordered cfg k w) (hsound : Sound cfg w)
    (hout : Outcome cfg w e w') :
    (returnedFor k w').Pairwise fun a b => a.fetch ≤ b.fetch := by
  rcases hout.log_cases with hlog | ⟨key, a, hlog, hfrom⟩
  · unfold returnedFor
    rw [hlog]
    exact h.returned
  · by_cases hkey : key = k
    · subst hkey
      have hsnoc : returnedFor key w' = returnedFor key w ++ [a] := by
        unfold returnedFor
        rw [hlog, List.filter_append, List.map_append]
        simp
      rw [hsnoc, List.pairwise_append]
      refine ⟨h.returned, List.pairwise_singleton .., fun b hb a' ha' => ?_⟩
      cases List.mem_singleton.mp ha'
      obtain ⟨p, hp, rfl⟩ := List.mem_map.mp hb
      obtain ⟨hp, hpk⟩ := List.mem_filter.mp hp
      obtain ⟨f, hf, hfk, hresult⟩ := hsound.logged p hp
      replace hfk : f.key = key := hfk.trans (of_decide_eq_true hpk)
      rcases hfrom with ⟨x, hx, hxk, hlt, rfl⟩ | ⟨c, hc, hck, n, g, hn, hg, ha⟩
      · exact h.stored x hx hxk hlt _ f _ hf hfk hresult
      · obtain ⟨rfl, -⟩ := hsound.flights.answers n g a hg ha
        exact h.waiting c hc hck _ hn _ f hf hfk
    · have hsame : returnedFor k w' = returnedFor k w := by
        unfold returnedFor
        rw [hlog, List.filter_append]
        simp [hkey]
      exact hsame ▸ h.returned

/-- One event. -/
theorem Ordered.step (h : Ordered cfg k w) (hsound : Sound cfg w) (halone : Alone k w e)
    (holder : NothingOlder cfg k w e) (hout : Outcome cfg w e w') : Ordered cfg k w' where
  one := h.one_step halone hout
  group := h.group_step hsound hout
  waiting := h.waiting_step hsound halone hout
  stored := h.stored_step hsound holder hout
  coalesced := h.coalesced_step hsound hout
  returned := h.returned_step hsound hout

theorem ordered_init (cfg : Setup V) (k : String) : Ordered cfg k ({} : World V) := by
  refine ⟨?_, ?_, ?_, ?_, ?_, ?_⟩ <;> simp [returnedFor]

/-- Calls for a key that do not overlap return answers of later and later fetches, when nothing
older stays stored beside an answer that is too large to be. -/
theorem reads_monotone {es : List (Event V)}
    (hrun : Run (Happens cfg) (fun w e => Alone k w e ∧ NothingOlder cfg k w e) {} es w) :
    (returnedFor k w).Pairwise fun a b => a.fetch ≤ b.fetch := by
  have hkept : Sound cfg w ∧ Ordered cfg k w := by
    refine hrun.invariant (P := fun w => Sound cfg w ∧ Ordered cfg k w)
      ⟨sound_init cfg, ordered_init cfg k⟩ ?_
    rintro w e w' ⟨hsound, hordered⟩ ⟨halone, holder⟩ hstep
    have hout := step_cases hstep
    exact ⟨hsound.step hout, hordered.step hsound halone holder hout⟩
  exact hkept.2.returned

/-- A call, one that asks for a fresh answer of the given size, and a third. -/
def freshBetween (v : Int) : List (Event Int) :=
  [.look projectsKey false, .join 0, .serve 0, .answer 0 (some 5), .land 0, .finish 0,
    .look projectsKey true, .join 1, .serve 1, .answer 1 (some v), .land 1, .finish 1,
    .look projectsKey false]

/-- No fetch returns more than is stored. -/
def Modest (_ : World Int) : Event Int → Prop
  | .answer _ (some v) => ¬ Huge smallSetup.lim v
  | _ => True

instance (w : World Int) : (e : Event Int) → Decidable (Modest w e)
  | .answer _ (some _) => inferInstanceAs (Decidable (¬ _))
  | .answer _ none | .tick _ | .write | .complete _ | .invalidate _ | .look _ _ | .join _ | .serve _
  | .land _ | .finish _ | .giveUp _ => .isTrue trivial

theorem reads_monotone_freshBetween :
    ∃ w, Run (Happens smallSetup)
        (fun w e => Alone projectsKey w e ∧ NothingOlder smallSetup projectsKey w e) {}
        (freshBetween 6) w ∧
      returnedFor projectsKey w = [⟨5, 0, 0⟩, ⟨6, 1, 0⟩, ⟨6, 1, 0⟩] ∧
      (returnedFor projectsKey w).Pairwise fun a b => a.fetch ≤ b.fetch := by
  have hsome : ∃ w, Run.exec (step smallSetup)
        (fun w e => Alone projectsKey w e ∧ Modest w e) (freshBetween 6) {} = some w ∧
      returnedFor projectsKey w = [⟨5, 0, 0⟩, ⟨6, 1, 0⟩, ⟨6, 1, 0⟩] :=
    ⟨_, rfl, rfl⟩
  obtain ⟨w, hw, hreturned⟩ := hsome
  have hrun : Run (Happens smallSetup)
      (fun w e => Alone projectsKey w e ∧ NothingOlder smallSetup projectsKey w e) {}
      (freshBetween 6) w := by
    refine (Run.of_exec (freshBetween 6) hw).mono fun w e hok => ⟨hok.1, ?_⟩
    obtain ⟨-, hmodest⟩ := hok
    unfold NothingOlder
    split
    · exact fun f _ _ _ hhuge => absurd hhuge hmodest
    · trivial
  exact ⟨w, hrun, hreturned, reads_monotone hrun⟩

/-- The large answer is returned but not stored, and the next call finds the older one. -/
theorem older_after_fresh :
    ∃ w, Run (Happens smallSetup) (Alone projectsKey) {} (freshBetween 20) w ∧
      ¬ (returnedFor projectsKey w).Pairwise fun a b => a.fetch ≤ b.fetch := by
  have hsome : ∃ w, Run.exec (step smallSetup) (Alone projectsKey) (freshBetween 20) {} = some w ∧
      returnedFor projectsKey w = [⟨5, 0, 0⟩, ⟨20, 1, 0⟩, ⟨5, 0, 0⟩] :=
    ⟨_, rfl, rfl⟩
  obtain ⟨w, hw, hreturned⟩ := hsome
  refine ⟨w, Run.of_exec (freshBetween 20) hw, ?_⟩
  rw [hreturned]
  decide

end World

end ApsBudget.Coalesce
