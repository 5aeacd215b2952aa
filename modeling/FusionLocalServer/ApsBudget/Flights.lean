import Mathlib.Logic.Function.Basic
import FusionLocalServer.ApsBudget.Coalesce
import FusionLocalServer.Lib.Search

/-!
# Fetches in flight

What every interleaving of the calls keeps: what a fetch has had it keeps, a key has at most one
fetch in flight, and everything that is stored or was returned is what a fetch for its key has
returned (`Sound`).
-/

namespace ApsBudget.Coalesce

open Lib (getElem?_snoc getElem?_set_cases getElem?_modify_cases)
open Cache (Huge mem_put put_huge mem_invalidateSubject)

namespace World

variable {V : Type} {cfg : Setup V} {w w' : World V} {e : Event V}

/-! ## What a fetch has it keeps -/

/-- What the flight has had it has still. -/
structure Later (f f' : Flight V) : Prop where
  key : f'.key = f.key
  read : ∀ version, f.read = some version → f'.read = some version
  result : ∀ r, f.result = some r → f'.result = some r

theorem Later.refl (f : Flight V) : Later f f := ⟨rfl, fun _ => id, fun _ => id⟩

def Grown (w w' : World V) : Prop :=
  ∀ (n : Nat) (f : Flight V), w.flights[n]? = some f → ∃ f', w'.flights[n]? = some f' ∧ Later f f'

theorem grown_same (h : w'.flights = w.flights) : Grown w w' :=
  fun _ f hf => ⟨f, h ▸ hf, .refl f⟩

theorem grown_append {f : Flight V} (h : w'.flights = w.flights ++ [f]) : Grown w w' := by
  intro n f' hf'
  rw [h, List.getElem?_append_left (List.getElem?_eq_some_iff.mp hf').1]
  exact ⟨f', hf', .refl f'⟩

theorem grown_set {n : Nat} {f : Flight V} (f' : Flight V) (hf : w.flights[n]? = some f) (hlater : Later f f')
    (h : w'.flights = w.flights.set n f') : Grown w w' := by
  intro k g hg
  rw [h, List.getElem?_set]
  split
  · next hk =>
    subst hk
    cases hf.symm.trans hg
    exact ⟨f', by simp [(List.getElem?_eq_some_iff.mp hf).1], hlater⟩
  · exact ⟨g, hg, .refl g⟩

theorem Outcome.grown (h : Outcome cfg w e w') : Grown w w' := by
  cases h with
  | tick | write | complete | invalidate | hit | miss | joined | finished | gaveUp =>
    exact grown_same rfl
  | direct fresh hkey => exact grown_append rfl
  | led hcall hphase hgroup => exact grown_append rfl
  | @served n f hf hread hresult =>
    exact grown_set { f with read := some w.version } hf
      ⟨rfl, fun _ hv => (nomatch hread.symm.trans hv), fun _ => id⟩ rfl
  | @answered n version f v hf hread hresult =>
    refine grown_set { f with result := some (some ⟨v, n, version⟩) } hf
      ⟨rfl, fun _ => id, fun _ hr => (nomatch hresult.symm.trans hr)⟩ ?_
    unfold answer
    dsimp only
    split <;> rfl
  | @failed n f hf hresult =>
    exact grown_set { f with result := some none } hf
      ⟨rfl, fun _ => id, fun _ hr => (nomatch hresult.symm.trans hr)⟩ rfl
  | @landed n f hf hresult hlanded =>
    refine grown_set { f with landed := true } hf ⟨rfl, fun _ => id, fun _ => id⟩ ?_
    unfold land
    dsimp only
    split <;> rfl

/-- The answer is what a fetch for the key returned. -/
def Of (w : World V) (key : String) (a : Answer V) : Prop :=
  ∃ f, w.flights[a.fetch]? = some f ∧ f.key = key ∧ f.result = some (some a)

theorem Of.grown {key : String} {a : Answer V} (h : Of w key a) (hgrown : Grown w w') :
    Of w' key a := by
  obtain ⟨f, hf, hkey, hresult⟩ := h
  obtain ⟨f', hf', hlater⟩ := hgrown _ f hf
  exact ⟨f', hf', hlater.key.trans hkey, hlater.result _ hresult⟩

/-! ## What all interleavings keep -/

/-- The flights and the group of those in the air. -/
structure Flights (cfg : Setup V) (w : World V) : Prop where
  group : ∀ key n, w.group key = some n →
    ∃ f, w.flights[n]? = some f ∧ f.key = key ∧ f.direct = false ∧ f.landed = false
  inFlight : ∀ (n : Nat) (f : Flight V), w.flights[n]? = some f → f.direct = false →
    f.landed = false → w.group f.key = some n
  direct : ∀ f ∈ w.flights, (f.direct = true ↔ ¬ Coalesced cfg f.key)
  answers : ∀ (n : Nat) (f : Flight V) (a : Answer V), w.flights[n]? = some f →
    f.result = some (some a) → a.fetch = n ∧ f.read = some a.version
  read : ∀ f ∈ w.flights, ∀ version, f.read = some version → version ≤ w.version
  landed : ∀ f ∈ w.flights, f.landed = true → f.result ≠ none

/-- A flight comes on, in the air still. -/
theorem Flights.set (h : Flights cfg w) {n : Nat} {f f' : Flight V}
    (hf : w.flights[n]? = some f) (hkey : f'.key = f.key) (hdirect : f'.direct = f.direct)
    (hlanded : f'.landed = f.landed)
    (hanswer : ∀ a, f'.result = some (some a) → a.fetch = n ∧ f'.read = some a.version)
    (hread : ∀ version, f'.read = some version → version ≤ w.version)
    (hresult : f.result ≠ none → f'.result ≠ none) : Flights cfg (w.setFlight n f') := by
  have hlt := (List.getElem?_eq_some_iff.mp hf).1
  refine ⟨fun key k hgroup => ?_, fun k g hg hgd hgl => ?_, fun g hg => ?_, fun k g a hg ha => ?_,
    fun g hg version hv => ?_, fun g hg hgl => ?_⟩
  · obtain ⟨g, hg, hgk, hgd, hgl⟩ := h.group key k hgroup
    by_cases hk : k = n
    · subst hk
      cases hf.symm.trans hg
      exact ⟨f', by simp [setFlight, hlt], hkey.trans hgk, hdirect.trans hgd, hlanded.trans hgl⟩
    · exact ⟨g, by simpa [setFlight, List.getElem?_set_ne (Ne.symm hk)] using hg, hgk, hgd, hgl⟩
  · rcases getElem?_set_cases hg with ⟨rfl, rfl⟩ | ⟨-, hg⟩
    · rw [hkey]
      exact h.inFlight k f hf (hdirect.symm.trans hgd) (hlanded.symm.trans hgl)
    · exact h.inFlight k g hg hgd hgl
  · rcases List.mem_or_eq_of_mem_set hg with hg | rfl
    · exact h.direct g hg
    · rw [hkey, hdirect]
      exact h.direct f (List.mem_of_getElem? hf)
  · rcases getElem?_set_cases hg with ⟨rfl, rfl⟩ | ⟨-, hg⟩
    · exact hanswer a ha
    · exact h.answers k g a hg ha
  · rcases List.mem_or_eq_of_mem_set hg with hg | rfl
    · exact h.read g hg version hv
    · exact hread version hv
  · rcases List.mem_or_eq_of_mem_set hg with hg | rfl
    · exact h.landed g hg hgl
    · exact hresult (h.landed f (List.mem_of_getElem? hf) (hlanded.symm.trans hgl))

/-- A new flight, past the cache. -/
theorem Flights.append_direct (h : Flights cfg w) {key : String} (hkey : ¬ Coalesced cfg key) :
    Flights cfg { w with flights := w.flights ++ [{ key, direct := true }] } := by
  refine ⟨fun key' n hgroup => ?_, fun n f hf hd hl => ?_, fun f hf => ?_, fun n f a hf ha => ?_,
    fun f hf version hv => ?_, fun f hf hl => ?_⟩
  · obtain ⟨f, hf, hfacts⟩ := h.group key' n hgroup
    exact ⟨f, getElem?_snoc.mpr (.inl hf), hfacts⟩
  · rcases getElem?_snoc.mp hf with hf | ⟨-, rfl⟩
    · exact h.inFlight n f hf hd hl
    · cases hd
  · rcases List.mem_append.mp hf with hf | hf
    · exact h.direct f hf
    · cases List.mem_singleton.mp hf
      exact iff_of_true rfl hkey
  · rcases getElem?_snoc.mp hf with hf | ⟨-, rfl⟩
    · exact h.answers n f a hf ha
    · cases ha
  · rcases List.mem_append.mp hf with hf | hf
    · exact h.read f hf version hv
    · cases List.mem_singleton.mp hf
      cases hv
  · rcases List.mem_append.mp hf with hf | hf
    · exact h.landed f hf hl
    · cases List.mem_singleton.mp hf
      cases hl

/-- A new flight, the only one for its key. -/
theorem Flights.append_lead (h : Flights cfg w) {key : String} (hkey : Coalesced cfg key)
    (hnone : w.group key = none) :
    Flights cfg { w with
      flights := w.flights ++ [{ key, direct := false }]
      group := Function.update w.group key (some w.flights.length) } := by
  refine ⟨fun key' n hgroup => ?_, fun n f hf hd hl => ?_, fun f hf => ?_, fun n f a hf ha => ?_,
    fun f hf version hv => ?_, fun f hf hl => ?_⟩
  · dsimp only at hgroup
    rw [Function.update_apply] at hgroup
    split at hgroup
    · next heq =>
      cases hgroup
      exact ⟨_, getElem?_snoc.mpr (.inr ⟨rfl, rfl⟩), heq.symm, rfl, rfl⟩
    · obtain ⟨f, hf, hfacts⟩ := h.group key' n hgroup
      exact ⟨f, getElem?_snoc.mpr (.inl hf), hfacts⟩
  · show Function.update w.group key _ f.key = some n
    rw [Function.update_apply]
    rcases getElem?_snoc.mp hf with hf | ⟨rfl, rfl⟩
    · have hgroup := h.inFlight n f hf hd hl
      rw [if_neg fun heq => by rw [heq, hnone] at hgroup; cases hgroup]
      exact hgroup
    · rw [if_pos rfl]
  · rcases List.mem_append.mp hf with hf | hf
    · exact h.direct f hf
    · cases List.mem_singleton.mp hf
      exact iff_of_false Bool.false_ne_true (not_not.mpr hkey)
  · rcases getElem?_snoc.mp hf with hf | ⟨-, rfl⟩
    · exact h.answers n f a hf ha
    · cases ha
  · rcases List.mem_append.mp hf with hf | hf
    · exact h.read f hf version hv
    · cases List.mem_singleton.mp hf
      cases hv
  · rcases List.mem_append.mp hf with hf | hf
    · exact h.landed f hf hl
    · cases List.mem_singleton.mp hf
      cases hl

theorem flights_land {n : Nat} {f : Flight V} :
    (w.land n f).flights = w.flights.set n { f with landed := true } := by
  unfold World.land
  dsimp only
  split <;> rfl

/-- A flight lands, and lets go of its key. -/
theorem Flights.land (h : Flights cfg w) {n : Nat} {f : Flight V}
    (hf : w.flights[n]? = some f) (hresult : f.result ≠ none) : Flights cfg (w.land n f) := by
  have hflights : (w.land n f).flights = w.flights.set n { f with landed := true } := flights_land
  have hversion : (w.land n f).version = w.version := by
    unfold World.land
    dsimp only
    split <;> rfl
  have hgroup : ∀ key k, (w.land n f).group key = some k ↔ w.group key = some k ∧ k ≠ n := by
    intro key k
    have hself : w.group key = some n → key = f.key := by
      intro hkey
      obtain ⟨g, hg, hgk, -, -⟩ := h.group key n hkey
      cases hf.symm.trans hg
      exact hgk.symm
    unfold World.land
    dsimp only
    split
    · next hn =>
      dsimp only
      rw [Function.update_apply]
      split
      · next heq =>
        subst heq
        refine iff_of_false (fun hk => (nomatch hk)) fun hk => hk.2 ?_
        exact Option.some.inj (hk.1.symm.trans hn)
      · next hne =>
        refine ⟨fun hk => ⟨hk, ?_⟩, And.left⟩
        rintro rfl
        exact hne (hself hk)
    · next hn =>
      refine ⟨fun hk => ⟨hk, ?_⟩, And.left⟩
      rintro rfl
      exact hn (hself hk ▸ hk)
  refine ⟨fun key k hk => ?_, fun k g hg hd hl => ?_, fun g hg => ?_, fun k g a hg ha => ?_,
    fun g hg version hv => ?_, fun g hg hl => ?_⟩
  · obtain ⟨hk, hne⟩ := (hgroup key k).mp hk
    obtain ⟨g, hg, hfacts⟩ := h.group key k hk
    exact ⟨g, by rwa [hflights, List.getElem?_set_ne (Ne.symm hne)], hfacts⟩
  · rw [hflights] at hg
    rcases getElem?_set_cases hg with ⟨-, rfl⟩ | ⟨hne, hg⟩
    · cases hl
    · exact (hgroup g.key k).mpr ⟨h.inFlight k g hg hd hl, hne⟩
  · rw [hflights] at hg
    rcases List.mem_or_eq_of_mem_set hg with hg | rfl
    · exact h.direct g hg
    · exact h.direct f (List.mem_of_getElem? hf)
  · rw [hflights] at hg
    rcases getElem?_set_cases hg with ⟨rfl, rfl⟩ | ⟨-, hg⟩
    · exact h.answers k f a hf ha
    · exact h.answers k g a hg ha
  · rw [hflights] at hg
    rw [hversion]
    rcases List.mem_or_eq_of_mem_set hg with hg | rfl
    · exact h.read g hg version hv
    · exact h.read f (List.mem_of_getElem? hf) version hv
  · rw [hflights] at hg
    rcases List.mem_or_eq_of_mem_set hg with hg | rfl
    · exact h.landed g hg hl
    · exact hresult

/-- One event. -/
theorem Flights.step (h : Flights cfg w)
    (hmissed : ∀ c ∈ w.calls, c.phase = .missed → Coalesced cfg c.key)
    (hout : Outcome cfg w e w') : Flights cfg w' := by
  cases hout with
  | tick | complete | invalidate | hit | miss | joined | finished | gaveUp =>
    exact ⟨h.group, h.inFlight, h.direct, h.answers, h.read, h.landed⟩
  | write =>
    exact ⟨h.group, h.inFlight, h.direct, h.answers,
      fun f hf version hv => Nat.le_succ_of_le (h.read f hf version hv), h.landed⟩
  | direct fresh hkey =>
    obtain ⟨hgroup, hinFlight, hdirect, hanswers, hread, hland⟩ := h.append_direct hkey
    exact ⟨hgroup, hinFlight, hdirect, hanswers, hread, hland⟩
  | led hcall hphase hgroup =>
    obtain ⟨hgroup, hinFlight, hdirect, hanswers, hread, hland⟩ :=
      h.append_lead (hmissed _ (List.mem_of_getElem? hcall) hphase) hgroup
    exact ⟨hgroup, hinFlight, hdirect, hanswers, hread, hland⟩
  | served hf hread hresult =>
    refine h.set hf rfl rfl rfl (fun a ha => ?_) (fun version hv => ?_) id
    · exact (nomatch hresult.symm.trans ha)
    · cases hv
      exact Nat.le_refl _
  | @answered n version f v hf hread hresult =>
    obtain ⟨hgroup, hinFlight, hdirect, hanswers, hread, hland⟩ :
        Flights cfg (w.setFlight n { f with result := some (some ⟨v, n, version⟩) }) := by
      refine h.set hf rfl rfl rfl (fun a ha => ?_) (h.read f (List.mem_of_getElem? hf))
        fun _ hnone => (nomatch hnone)
      cases ha
      exact ⟨rfl, hread⟩
    unfold answer
    dsimp only
    split <;> exact ⟨hgroup, hinFlight, hdirect, hanswers, hread, hland⟩
  | @failed n f hf hresult =>
    exact h.set hf rfl rfl rfl (fun a ha => (nomatch ha)) (h.read f (List.mem_of_getElem? hf))
      fun _ hnone => (nomatch hnone)
  | landed hf hresult hlanded => exact h.land hf hresult

/-- What is stored after a fetch has returned: what was, less what there was for the key if the
answer is stored, and the answer. -/
theorem mem_answer {n : Nat} {f : Flight V} {a : Answer V} {x : Entry (Answer V)}
    (h : x ∈ (w.answer cfg n f (some a)).cache.lru) :
    (x ∈ w.cache.lru ∧
      (x.key = f.key → f.direct = true ∨ Huge (answerLimits cfg.lim) a)) ∨
    (x.key = f.key ∧ x.val = a ∧ f.direct = false) := by
  unfold answer at h
  dsimp only at h
  cases hdirect : f.direct with
  | true =>
    rw [hdirect] at h
    exact .inl ⟨h, fun _ => .inl rfl⟩
  | false =>
    rw [hdirect] at h
    by_cases hhuge : Huge (answerLimits cfg.lim) a
    · rw [show (w.setFlight n _).cache = w.cache from rfl] at h
      exact .inl ⟨by simpa [put_huge hhuge] using h, fun _ => .inr hhuge⟩
    · rcases mem_put hhuge h with ⟨hkey, hval, -⟩ | ⟨hold, hne⟩
      · exact .inr ⟨hkey, hval, rfl⟩
      · exact .inl ⟨hold, fun hkey => absurd hkey hne⟩

theorem flights_answer {n : Nat} {f : Flight V} {r : Option (Answer V)} :
    (w.answer cfg n f r).flights = w.flights.set n { f with result := some r } := by
  unfold answer
  dsimp only
  split <;> rfl

/-- Everything kept is of a fetch that was made for its key, and every mark is of writes that
have completed. -/
structure Sound (cfg : Setup V) (w : World V) : Prop where
  flights : Flights cfg w
  stored : ∀ e ∈ w.cache.lru, Of w e.key e.val
  logged : ∀ p ∈ w.log, Of w p.1 p.2
  missed : ∀ c ∈ w.calls, c.phase = .missed → Coalesced cfg c.key
  waiting : ∀ c ∈ w.calls, ∀ n, c.phase = .waiting n →
    ∃ f, w.flights[n]? = some f ∧ f.key = c.key
  written : w.written ≤ w.version
  marks : ∀ m ∈ w.marks, m.2 ≤ w.written
  callMarks : ∀ c ∈ w.calls, c.marks ⊆ w.marks

theorem Sound.stored_step (h : Sound cfg w) (hout : Outcome cfg w e w') :
    ∀ x ∈ w'.cache.lru, Of w' x.key x.val := by
  have hgrown := hout.grown
  have hold : ∀ x ∈ w.cache.lru, Of w' x.key x.val := fun x hx => (h.stored x hx).grown hgrown
  intro x hx
  cases hout with
  | tick | write | complete | direct | joined | led | served | failed | finished | gaveUp =>
    exact hold x hx
  | invalidate sub =>
    by_cases hsub : sub = ""
    · refine hold x ?_
      rwa [hsub, Cache.invalidateSubject, if_pos rfl] at hx
    · exact hold x ((mem_invalidateSubject hsub).mp hx).1
  | hit hkey he hek hlt hcache => exact hold x (hcache x hx)
  | miss hkey hcache => exact hold x (hcache x hx)
  | @answered n version f v hf hread hresult =>
    rcases mem_answer hx with ⟨hx, -⟩ | ⟨hkey, hval, -⟩
    · exact hold x hx
    · rw [hkey, hval]
      refine ⟨{ f with result := some (some ⟨v, n, version⟩) }, ?_, rfl, rfl⟩
      rw [flights_answer]
      exact List.getElem?_set_self (List.getElem?_eq_some_iff.mp hf).1
  | @landed n f hf hresult hlanded =>
    refine hold x ?_
    unfold land at hx
    dsimp only at hx
    split at hx <;> exact hx

theorem Sound.logged_step (h : Sound cfg w) (hout : Outcome cfg w e w') :
    ∀ p ∈ w'.log, Of w' p.1 p.2 := by
  have hgrown := hout.grown
  have hold : ∀ p ∈ w.log, Of w' p.1 p.2 := fun p hp => (h.logged p hp).grown hgrown
  intro p hp
  cases hout with
  | tick | write | complete | invalidate | direct | miss | joined | led | served | failed
    | gaveUp => exact hold p hp
  | hit hkey he hek hlt hcache =>
    rcases List.mem_append.mp hp with hp | hp
    · exact hold p hp
    · cases List.mem_singleton.mp hp
      exact hek ▸ (h.stored _ he).grown hgrown
  | answered hf hread hresult =>
    refine hold p ?_
    unfold answer at hp
    dsimp only at hp
    split at hp <;> exact hp
  | landed hf hresult hlanded =>
    refine hold p ?_
    unfold land at hp
    dsimp only at hp
    split at hp <;> exact hp
  | @finished i n c f result hcall hphase hf hresult hlanded =>
    rcases List.mem_append.mp hp with hp | hp
    · exact hold p hp
    · cases result with
      | none => cases hp
      | some a =>
        cases List.mem_singleton.mp hp
        obtain ⟨g, hg, hkey⟩ := h.waiting c (List.mem_of_getElem? hcall) n hphase
        cases hf.symm.trans hg
        obtain ⟨rfl, -⟩ := h.flights.answers n f a hf hresult
        exact ⟨f, hf, hkey, hresult⟩

/-- A call that the event begins. -/
structure Begun (w : World V) (e : Event V) (w' : World V) (cfg : Setup V) (c : Call V) :
    Prop where
  look : ∃ fresh, e = .look c.key fresh
  marks : c.marks = w.marks
  missed : c.phase = .missed → Coalesced cfg c.key
  waiting : ∀ n, c.phase = .waiting n → n = w.flights.length ∧
    w'.flights = w.flights ++ [{ key := c.key, direct := true }]
  returned : ∀ a, c.phase = .returned (some a) →
    ∃ x ∈ w.cache.lru, x.key = c.key ∧ w.now < x.expires ∧ x.val = a

/-- A call that the event moves on. -/
structure Moved (w w' : World V) (c₀ c : Call V) : Prop where
  active : c₀.Active
  key : c.key = c₀.key
  marks : c.marks = c₀.marks
  missed : c.phase ≠ .missed
  waiting : ∀ n, c.phase = .waiting n → c₀.phase = .missed ∧
    ((w.group c.key = some n ∧ w'.flights = w.flights) ∨ (n = w.flights.length ∧
      w'.flights = w.flights ++ [{ key := c.key, direct := false }]))
  returned : ∀ a, c.phase = .returned (some a) → ∃ n f, c₀.phase = .waiting n ∧
    w.flights[n]? = some f ∧ f.result = some (some a)

/-- The calls after an event: those before, the one it begins, or the one it moves on. -/
theorem Outcome.calls (hout : Outcome cfg w e w') {i : Nat} {c : Call V}
    (hc : w'.calls[i]? = some c) :
    w.calls[i]? = some c ∨ (i = w.calls.length ∧ Begun w e w' cfg c) ∨
      ∃ c₀, w.calls[i]? = some c₀ ∧ Moved w w' c₀ c := by
  cases hout with
  | tick | write | complete | invalidate | served | failed => exact .inl hc
  | answered hf hread hresult =>
    unfold answer at hc
    dsimp only at hc
    split at hc <;> exact .inl hc
  | landed hf hresult hlanded =>
    unfold land at hc
    dsimp only at hc
    split at hc <;> exact .inl hc
  | direct fresh hkey =>
    rcases getElem?_snoc.mp hc with hc | ⟨hi, rfl⟩
    · exact .inl hc
    · refine .inr (.inl ⟨hi, ⟨fresh, rfl⟩, rfl, fun h => (nomatch h), fun n hn => ?_,
        fun a ha => (nomatch ha)⟩)
      cases hn
      exact ⟨rfl, rfl⟩
  | hit hkey he hek hlt hcache =>
    rcases getElem?_snoc.mp hc with hc | ⟨hi, rfl⟩
    · exact .inl hc
    · refine .inr (.inl ⟨hi, ⟨false, rfl⟩, rfl, fun h => (nomatch h), fun n hn => (nomatch hn),
        fun a ha => ?_⟩)
      cases ha
      exact ⟨_, he, hek, hlt, rfl⟩
  | @miss key fresh cache hkey hcache =>
    rcases getElem?_snoc.mp hc with hc | ⟨hi, rfl⟩
    · exact .inl hc
    · exact .inr (.inl ⟨hi, ⟨fresh, rfl⟩, rfl, fun _ => hkey, fun n hn => (nomatch hn),
        fun a ha => (nomatch ha)⟩)
  | joined hcall hphase hgroup =>
    rcases getElem?_modify_cases hc with ⟨c₀, hc₀, rfl, rfl⟩ | ⟨-, hc⟩
    · cases hcall.symm.trans hc₀
      refine .inr (.inr ⟨_, hcall, .inl hphase, rfl, rfl, fun h => (nomatch h), ?_,
        fun a ha => (nomatch ha)⟩)
      rintro n ⟨⟩
      exact ⟨hphase, .inl ⟨hgroup, rfl⟩⟩
    · exact .inl hc
  | led hcall hphase hgroup =>
    rcases getElem?_modify_cases hc with ⟨c₀, hc₀, rfl, rfl⟩ | ⟨-, hc⟩
    · cases hcall.symm.trans hc₀
      refine .inr (.inr ⟨_, hcall, .inl hphase, rfl, rfl, fun h => (nomatch h), ?_,
        fun a ha => (nomatch ha)⟩)
      rintro n ⟨⟩
      exact ⟨hphase, .inr ⟨rfl, rfl⟩⟩
    · exact .inl hc
  | finished hcall hphase hf hresult hlanded =>
    rcases getElem?_modify_cases hc with ⟨c₀, hc₀, rfl, rfl⟩ | ⟨-, hc⟩
    · cases hcall.symm.trans hc₀
      refine .inr (.inr ⟨_, hcall, .inr ⟨_, hphase⟩, rfl, rfl, fun h => (nomatch h),
        fun n hn => (nomatch hn), ?_⟩)
      rintro a ⟨⟩
      exact ⟨_, _, hphase, hf, hresult⟩
    · exact .inl hc
  | gaveUp hcall hphase =>
    rcases getElem?_modify_cases hc with ⟨c₀, hc₀, rfl, rfl⟩ | ⟨-, hc⟩
    · cases hcall.symm.trans hc₀
      exact .inr (.inr ⟨_, hcall, .inr ⟨_, hphase⟩, rfl, rfl, fun h => (nomatch h),
        fun n hn => (nomatch hn), fun a ha => (nomatch ha)⟩)
    · exact .inl hc

theorem Sound.waiting_step (h : Sound cfg w) (hout : Outcome cfg w e w') :
    ∀ c ∈ w'.calls, ∀ n, c.phase = .waiting n → ∃ f, w'.flights[n]? = some f ∧ f.key = c.key := by
  have hgrown := hout.grown
  intro c hc n hn
  obtain ⟨i, hi⟩ := List.getElem?_of_mem hc
  rcases hout.calls hi with hc | ⟨-, hbegun⟩ | ⟨c₀, -, hmoved⟩
  · obtain ⟨f, hf, hfk⟩ := h.waiting c (List.mem_of_getElem? hc) n hn
    obtain ⟨f', hf', hlater⟩ := hgrown n f hf
    exact ⟨f', hf', hlater.key.trans hfk⟩
  · obtain ⟨rfl, hflights⟩ := hbegun.waiting n hn
    exact ⟨_, by rw [hflights]; exact getElem?_snoc.mpr (.inr ⟨rfl, rfl⟩), rfl⟩
  · obtain ⟨-, ⟨hgroup, -⟩ | ⟨rfl, hflights⟩⟩ := hmoved.waiting n hn
    · obtain ⟨f, hf, hfk, -, -⟩ := h.flights.group c.key n hgroup
      obtain ⟨f', hf', hlater⟩ := hgrown n f hf
      exact ⟨f', hf', hlater.key.trans hfk⟩
    · exact ⟨_, by rw [hflights]; exact getElem?_snoc.mpr (.inr ⟨rfl, rfl⟩), rfl⟩

/-- What is stored was, or a fetch in flight returns it. -/
theorem Outcome.stores (hsound : Sound cfg w) (hout : Outcome cfg w e w')
    {x : Entry (Answer V)} (hx : x ∈ w'.cache.lru) :
    x ∈ w.cache.lru ∨ ∃ f, w.flights[x.val.fetch]? = some f ∧ f.direct = false ∧
      f.landed = false ∧ x.key = f.key ∧ f.read = some x.val.version := by
  cases hout with
  | tick | write | complete | direct | joined | led | served | failed | finished | gaveUp =>
    exact .inl hx
  | invalidate sub =>
    by_cases hsub : sub = ""
    · rw [hsub, Cache.invalidateSubject, if_pos rfl] at hx
      exact .inl hx
    · exact .inl ((mem_invalidateSubject hsub).mp hx).1
  | hit hkey he hek hlt hcache => exact .inl (hcache x hx)
  | miss hkey hcache => exact .inl (hcache x hx)
  | @answered n version f v hf hread hresult =>
    rcases mem_answer hx with ⟨hx, -⟩ | ⟨hkey, hval, hdirect⟩
    · exact .inl hx
    · have hmem := List.mem_of_getElem? hf
      -- a fetch that has not returned has not landed
      have hlanded : f.landed = false :=
        Bool.eq_false_iff.mpr fun hl => hsound.flights.landed f hmem hl hresult
      exact .inr ⟨f, hval.symm ▸ hf, hdirect, hlanded, hkey, hval.symm ▸ hread⟩
  | landed hf hresult hlanded =>
    unfold land at hx
    dsimp only at hx
    split at hx <;> exact .inl hx

/-- The writes completed only grow, and the marks are added to. -/
theorem Outcome.marks (hout : Outcome cfg w e w') :
    w.version ≤ w'.version ∧ w.written ≤ w'.written ∧
    (w.written ≤ w.version → w'.written ≤ w'.version) ∧
    (w'.marks = w.marks ∨ ∃ sub, sub ≠ "" ∧ e = .invalidate sub ∧
      w'.marks = w.marks ++ [(sub, w.written)] ∧
      w'.cache = w.cache.invalidateSubject sub) := by
  cases hout with
  | write => exact ⟨Nat.le_succ _, Nat.le_refl _, Nat.le_succ_of_le, .inl rfl⟩
  | complete hle =>
    exact ⟨Nat.le_refl _, Nat.le_max_left .., fun h => Nat.max_le.mpr ⟨h, hle⟩, .inl rfl⟩
  | invalidate sub =>
    refine ⟨Nat.le_refl _, Nat.le_refl _, id, ?_⟩
    by_cases hsub : sub = ""
    · exact .inl (if_pos hsub)
    · exact .inr ⟨sub, hsub, rfl, if_neg hsub, rfl⟩
  | answered hf hread hresult =>
    unfold answer
    dsimp only
    split <;> exact ⟨Nat.le_refl _, Nat.le_refl _, id, .inl rfl⟩
  | landed hf hresult hlanded =>
    unfold land
    dsimp only
    split <;> exact ⟨Nat.le_refl _, Nat.le_refl _, id, .inl rfl⟩
  | tick | direct | hit | miss | joined | led | served | failed | finished | gaveUp =>
    exact ⟨Nat.le_refl _, Nat.le_refl _, id, .inl rfl⟩

theorem Outcome.subset_marks (hout : Outcome cfg w e w') : w.marks ⊆ w'.marks := by
  obtain ⟨-, -, -, hmarks | ⟨sub, -, -, hmarks, -⟩⟩ := hout.marks
  · exact hmarks ▸ List.Subset.refl _
  · exact hmarks ▸ List.subset_append_left ..

/-- One event. -/
theorem Sound.step (h : Sound cfg w) (hout : Outcome cfg w e w') : Sound cfg w' := by
  obtain ⟨-, hwritten, hle, hmarks⟩ := hout.marks
  refine ⟨h.flights.step h.missed hout, h.stored_step hout, h.logged_step hout, fun c hc hphase => ?_,
    h.waiting_step hout, hle h.written, fun m hm => ?_, fun c hc => ?_⟩
  · obtain ⟨i, hi⟩ := List.getElem?_of_mem hc
    rcases hout.calls hi with hc | ⟨-, hbegun⟩ | ⟨c₀, -, hmoved⟩
    · exact h.missed c (List.mem_of_getElem? hc) hphase
    · exact hbegun.missed hphase
    · exact absurd hphase hmoved.missed
  · rcases hmarks with hmarks | ⟨sub, -, -, hmarks, -⟩
    · exact Nat.le_trans (h.marks m (hmarks ▸ hm)) hwritten
    · rw [hmarks] at hm
      rcases List.mem_append.mp hm with hm | hm
      · exact Nat.le_trans (h.marks m hm) hwritten
      · cases List.mem_singleton.mp hm
        exact hwritten
  · have hsub := hout.subset_marks
    obtain ⟨i, hi⟩ := List.getElem?_of_mem hc
    rcases hout.calls hi with hc | ⟨-, hbegun⟩ | ⟨c₀, hc₀, hmoved⟩
    · exact List.Subset.trans (h.callMarks c (List.mem_of_getElem? hc)) hsub
    · exact hbegun.marks ▸ hsub
    · rw [hmoved.marks]
      exact List.Subset.trans (h.callMarks c₀ (List.mem_of_getElem? hc₀)) hsub

theorem sound_init (cfg : Setup V) : Sound cfg ({} : World V) := by
  refine ⟨⟨?_, ?_, ?_, ?_, ?_, ?_⟩, ?_, ?_, ?_, ?_, ?_, ?_, ?_⟩ <;> simp

end World

end ApsBudget.Coalesce
