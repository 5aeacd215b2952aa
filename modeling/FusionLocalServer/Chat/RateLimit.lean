import FusionLocalServer.ApsBudget.Bucket
import FusionLocalServer.Lib.Meter
import FusionLocalServer.Lib.Table

/-!
# The rate limiter (`chat/ratelimit.go`)

One token bucket a key. A limiter with many keys drops the buckets that were idle for long
when a new key comes; an idle bucket is full again by then (`idle_covers`), so no answer
tells a limiter that prunes from one that does not (`Alike.allow`). What such a limiter
lets through for a key is metered: `meter_paced` gives the bound over any window.
-/

namespace FusionLocalServer.Chat.RateLimit

open Lib (Meter)
open Std (ExtTreeMap)
open ApsBudget (Time Duration second minute sub seconds truncate maxDuration)

structure Bucket where
  tokens : Rat
  last : Time
  deriving DecidableEq

structure Limiter where
  /-- Tokens a second. -/
  rate : Rat
  burst : Rat
  buckets : ExtTreeMap String Bucket := ∅

def newLimiter (rate burst : Rat) : Limiter := { rate, burst }

/-- The bucket with what came in since it was last looked at, up to the burst. -/
def Bucket.refill (rate burst : Rat) (b : Bucket) (now : Time) : Bucket :=
  let tokens := b.tokens + seconds (sub now b.last) * rate
  { tokens := if burst < tokens then burst else tokens, last := now }

/-- A token is spent if there is one. -/
def Bucket.spend (rate burst : Rat) (b : Bucket) (now : Time) : Bucket × Bool :=
  let b := b.refill rate burst now
  if b.tokens < 1 then (b, false) else ({ b with tokens := b.tokens - 1 }, true)

namespace Limiter

/-- After how long without a call a bucket is dropped: the time to fill it, at least a
minute. -/
def idle (l : Limiter) : Duration :=
  let idle := truncate ((second : Int) * (l.burst / l.rate))
  if idle < minute then minute else idle

def prune (l : Limiter) (now : Time) : Limiter :=
  { l with buckets := l.buckets.filter fun _ b => ¬ l.idle < sub now b.last }

/-- The end of `Allow`, once there is a bucket. -/
def spend (l : Limiter) (now : Time) (key : String) (b : Bucket) : Limiter × Bool :=
  let (b, ok) := b.spend l.rate l.burst now
  ({ l with buckets := l.buckets.insert key b }, ok)

def allow (l : Limiter) (now : Time) (key : String) : Limiter × Bool :=
  match l.buckets[key]? with
  | some b => l.spend now key b
  | none =>
    let l := if 4096 ≤ l.buckets.size then l.prune now else l
    l.spend now key { tokens := l.burst, last := now }

/-- `allow` of a limiter that never prunes. -/
def allowKeeping (l : Limiter) (now : Time) (key : String) : Limiter × Bool :=
  match l.buckets[key]? with
  | some b => l.spend now key b
  | none => l.spend now key { tokens := l.burst, last := now }

end Limiter

/-- A call of `Allow`: when, and for which key. -/
abbrev Call := Time × String

/-- The answers to calls, one after another. -/
def answers (allow : Limiter → Time → String → Limiter × Bool) : Limiter → List Call → List Bool
  | _, [] => []
  | l, (now, key) :: calls => (allow l now key).2 :: answers allow (allow l now key).1 calls

/-- How many calls for a key are allowed in a window of time, whose ends are in seconds. -/
def allowed (key : String) (start stop : Rat) (calls : List Call) (answers : List Bool) : Nat :=
  (calls.zip answers).countP fun (call, ok) =>
    ok ∧ call.2 = key ∧ start ≤ seconds call.1 ∧ seconds call.1 ≤ stop

/-- The clock does not go back. -/
def InOrder (calls : List Call) : Prop := calls.Pairwise fun a b => a.1 ≤ b.1

instance (calls : List Call) : Decidable (InOrder calls) :=
  inferInstanceAs (Decidable (calls.Pairwise _))

/-! ## The clock -/

theorem sub_self (t : Time) : sub t t = 0 := by
  unfold sub
  rw [Int.sub_self]
  decide

theorem sub_nonneg {t u : Time} (h : u ≤ t) : 0 ≤ sub t u :=
  le_max_of_le_right (le_min (by decide) (Int.sub_nonneg_of_le h))

theorem sub_mono {t t' : Time} (u : Time) (h : t ≤ t') : sub t u ≤ sub t' u :=
  max_le_max le_rfl (min_le_min le_rfl (Int.sub_le_sub_right h u))

theorem sub_grows {t t' : Time} (u : Time) (h : t ≤ t') : sub t' u ≤ sub t u + (t' - t) := by
  have hclamp : ∀ low high x x' : Int, x ≤ x' →
      max low (min high x') ≤ max low (min high x) + (x' - x) := by omega
  have hle := hclamp ApsBudget.minDuration maxDuration (t - u) (t' - u) (Int.sub_le_sub_right h u)
  rwa [sub_sub_sub_cancel_right] at hle

theorem seconds_mono {d d' : Duration} (h : d ≤ d') : seconds d ≤ seconds d' := by
  unfold seconds
  exact div_le_div_of_nonneg_right (by exact_mod_cast h) (by decide)

theorem seconds_add (d d' : Duration) : seconds (d + d') = seconds d + seconds d' := by
  unfold seconds
  push_cast
  ring

theorem seconds_zero : seconds 0 = 0 := by
  unfold seconds
  simp

/-! ## One bucket -/

namespace Bucket

variable {rate burst : Rat} {b : Bucket} {t t' : Time}

theorem refill_eq : b.refill rate burst t =
    ⟨min burst (b.tokens + seconds (sub t b.last) * rate), t⟩ := by
  unfold refill
  dsimp only
  split
  · next h => rw [min_eq_left h.le]
  · next h => rw [min_eq_right (le_of_not_gt h)]

/-- The bucket is full by then. -/
def Full (rate burst : Rat) (b : Bucket) (t : Time) : Prop :=
  burst ≤ b.tokens + seconds (sub t b.last) * rate

theorem Full.refill (h : b.Full rate burst t) : b.refill rate burst t = ⟨burst, t⟩ := by
  rw [refill_eq, min_eq_left h]

theorem full_new : (⟨burst, t⟩ : Bucket).Full rate burst t := by
  unfold Full
  rw [sub_self, seconds_zero]
  simp

theorem Full.later (h : b.Full rate burst t) (hrate : 0 ≤ rate) (hle : t ≤ t') :
    b.Full rate burst t' := by
  have hmore := mul_le_mul_of_nonneg_right (seconds_mono (sub_mono b.last hle)) hrate
  unfold Full at h ⊢
  linarith

/-- Two buckets that are full are the same to a call. -/
theorem Full.spend {b' : Bucket} (h : b.Full rate burst t) (h' : b'.Full rate burst t) :
    b.spend rate burst t = b'.spend rate burst t := by
  unfold Bucket.spend
  rw [h.refill, h'.refill]

theorem tokens_refill_nonneg (hrate : 0 ≤ rate) (hburst : 0 ≤ burst) (hb : 0 ≤ b.tokens)
    (hlast : b.last ≤ t) : 0 ≤ (b.refill rate burst t).tokens := by
  have hcame := mul_nonneg (seconds_zero ▸ seconds_mono (sub_nonneg hlast)) hrate
  rw [refill_eq]
  exact le_min hburst (add_nonneg hb hcame)

/-- What a call leaves, and what it takes. -/
theorem spend_left (b : Bucket) (rate burst : Rat) (t : Time) :
    (b.spend rate burst t).1.last = t ∧ (b.spend rate burst t).1.tokens +
      (if (b.spend rate burst t).2 = true then 1 else 0) = (b.refill rate burst t).tokens := by
  unfold spend
  dsimp only
  split
  · exact ⟨rfl, by simp⟩
  · exact ⟨rfl, by simp⟩

end Bucket

/-! ## Idle buckets are full -/

namespace Limiter

variable {l p u : Limiter} {rate burst : Rat} {clock now : Time} {key k : String}

/-- **A bucket that is idle for longer than `idle` is full.** -/
theorem idle_covers {b : Bucket} (hrate : 0 < l.rate) (hburst : 0 ≤ l.burst)
    (hb : 0 ≤ b.tokens) (hidle : l.idle < sub now b.last) : b.Full l.rate l.burst now := by
  have hfill : 0 ≤ (second : Int) * (l.burst / l.rate) :=
    mul_nonneg (by decide) (div_nonneg hburst hrate.le)
  have hwhole : truncate ((second : Int) * (l.burst / l.rate)) < sub now b.last := by
    refine lt_of_le_of_lt ?_ hidle
    unfold idle
    dsimp only
    split
    · next h => exact h.le
    · exact le_rfl
  -- a whole number above the whole part is above the number
  rw [ApsBudget.truncate_nonneg_eq hfill, Int.floor_lt] at hwhole
  have hlong : l.burst ≤ seconds (sub now b.last) * l.rate := by
    rw [← div_le_iff₀ hrate]
    unfold seconds
    rw [le_div_iff₀ (by decide), mul_comm]
    exact hwhole.le
  exact hlong.trans (le_add_of_nonneg_left hb)

/-- The bucket a call for the key works with. -/
def found (l : Limiter) (now : Time) (key : String) : Bucket :=
  (l.buckets[key]?).getD { tokens := l.burst, last := now }

/-- The limiter when the bucket has been found or made. -/
def ready (l : Limiter) (now : Time) (key : String) : Limiter :=
  if l.buckets[key]? = none ∧ 4096 ≤ l.buckets.size then l.prune now else l

theorem allow_eq : l.allow now key = (l.ready now key).spend now key (l.found now key) := by
  unfold allow ready found
  cases l.buckets[key]? with
  | some b => rfl
  | none =>
    by_cases hsize : 4096 ≤ l.buckets.size
    · simp only [hsize, and_self, if_true, Option.getD_none]
      rfl
    · simp [hsize]

theorem allowKeeping_eq : l.allowKeeping now key = l.spend now key (l.found now key) := by
  unfold allowKeeping found
  cases l.buckets[key]? <;> rfl

/-- A limiter of a rate and a burst, with buckets that were last looked at by `clock`. -/
structure Sound (rate burst : Rat) (l : Limiter) (clock : Time) : Prop where
  rate : l.rate = rate
  burst : l.burst = burst
  bucket : ∀ {key : String} {b : Bucket}, l.buckets[key]? = some b → 0 ≤ b.tokens ∧ b.last ≤ clock

theorem Sound.new (rate burst : Rat) (clock : Time) : Sound rate burst (newLimiter rate burst) clock :=
  ⟨rfl, rfl, fun h => by simp [newLimiter] at h⟩

theorem Sound.wait (h : Sound rate burst l clock) (hle : clock ≤ now) : Sound rate burst l now :=
  ⟨h.rate, h.burst, fun hb => ⟨(h.bucket hb).1, (h.bucket hb).2.trans hle⟩⟩

theorem Sound.found (h : Sound rate burst l now) (hburst : 0 ≤ burst) :
    0 ≤ (l.found now key).tokens ∧ (l.found now key).last ≤ now := by
  unfold Limiter.found
  cases hb : l.buckets[key]? with
  | some b => exact h.bucket hb
  | none => exact ⟨h.burst ▸ hburst, le_rfl⟩

theorem get_spend (b : Bucket) : (l.spend now key b).1.buckets[k]? =
    if key = k then some (b.spend l.rate l.burst now).1 else l.buckets[k]? :=
  Lib.Table.get_insert _ _ _ _

theorem Sound.spend (h : Sound rate burst l now) (hrate : 0 ≤ rate) (hburst : 0 ≤ burst) {b : Bucket}
    (hb : 0 ≤ b.tokens) (hlast : b.last ≤ now) : Sound rate burst (l.spend now key b).1 now where
  rate := h.rate
  burst := h.burst
  bucket := by
    intro k b' hb'
    rw [get_spend] at hb'
    split at hb'
    · cases hb'
      have htokens := Bucket.tokens_refill_nonneg (h.rate.symm ▸ hrate) (h.burst.symm ▸ hburst) hb hlast
      unfold Bucket.spend
      dsimp only
      split
      · exact ⟨htokens, le_rfl⟩
      · next hone => exact ⟨sub_nonneg_of_le (le_of_not_gt hone), le_rfl⟩
    · exact h.bucket hb'

/-! ## Pruning changes no answer -/

/-- A limiter that prunes beside one that does not: the buckets that are gone are full. -/
structure Alike (p u : Limiter) (clock : Time) : Prop where
  rate : p.rate = u.rate
  burst : p.burst = u.burst
  bucket : ∀ key : String, p.buckets[key]? = u.buckets[key]? ∨ p.buckets[key]? = none ∧
    ∀ b : Bucket, u.buckets[key]? = some b → b.Full u.rate u.burst clock

theorem Alike.wait (h : Alike p u clock) (hrate : 0 ≤ u.rate) (hle : clock ≤ now) :
    Alike p u now :=
  ⟨h.rate, h.burst, fun key => (h.bucket key).imp id fun hgone =>
    ⟨hgone.1, fun b hb => (hgone.2 b hb).later hrate hle⟩⟩

theorem Alike.prune (h : Alike p u now) (hu : Sound rate burst u now) (hrate : 0 < rate)
    (hburst : 0 ≤ burst) : Alike (p.prune now) u now where
  rate := h.rate
  burst := h.burst
  bucket := by
    intro key
    have hprune : (p.prune now).buckets[key]? =
        (p.buckets[key]?).filter fun b => ¬ p.idle < sub now b.last :=
      ExtTreeMap.getElem?_filter'
    rw [hprune]
    rcases h.bucket key with hsame | hgone
    · cases hb : p.buckets[key]? with
      | none => exact .inl (hsame ▸ hb.symm)
      | some b =>
        rw [hb] at hsame
        by_cases hidle : p.idle < sub now b.last
        · refine .inr ⟨by simp [hidle], fun b' hb' => ?_⟩
          have hfull := idle_covers (by rwa [h.rate, hu.rate]) (by rwa [h.burst, hu.burst])
            (hu.bucket hsame.symm).1 hidle
          cases hsame.trans hb'
          rwa [h.rate, h.burst] at hfull
        · refine .inl ?_
          rw [← hsame, Option.filter_some, if_pos (by simpa using hidle)]
    · exact .inr ⟨by rw [hgone.1]; rfl, hgone.2⟩

theorem Alike.spend {b b' : Bucket} (h : Alike p u now)
    (hspend : b.spend p.rate p.burst now = b'.spend u.rate u.burst now) :
    (p.spend now key b).2 = (u.spend now key b').2 ∧
      Alike (p.spend now key b).1 (u.spend now key b').1 now := by
  have hanswer : (p.spend now key b).2 = (u.spend now key b').2 :=
    congrArg (fun spent : Bucket × Bool => spent.2) hspend
  refine ⟨hanswer, h.rate, h.burst, fun k => ?_⟩
  rw [get_spend, get_spend, hspend]
  by_cases hk : key = k
  · exact .inl (by rw [if_pos hk, if_pos hk])
  · rw [if_neg hk, if_neg hk]
    exact h.bucket k

/-- **One call**: it is answered alike, whether or not buckets are dropped. -/
theorem Alike.allow (h : Alike p u clock) (hu : Sound rate burst u clock) (hrate : 0 < rate)
    (hburst : 0 ≤ burst) (hle : clock ≤ now) :
    (p.allow now key).2 = (u.allowKeeping now key).2 ∧
      Alike (p.allow now key).1 (u.allowKeeping now key).1 now := by
  have hnow := h.wait (hu.rate.symm ▸ hrate.le) hle
  have hready : Alike (p.ready now key) u now := by
    unfold ready
    split
    · exact hnow.prune (hu.wait hle) hrate hburst
    · exact hnow
  rw [allow_eq, allowKeeping_eq]
  refine hready.spend ?_
  rw [hready.rate, hready.burst]
  unfold found
  rcases hnow.bucket key with hsame | ⟨hgone, hfull⟩
  · rw [hsame, h.burst]
  · -- the bucket was dropped: a new one is as full as the old one
    rw [hgone]
    cases hb : u.buckets[key]? with
    | none => rw [h.burst]
    | some b => exact Bucket.Full.spend (h.burst.symm ▸ Bucket.full_new) (hfull b hb)

theorem Sound.allowKeeping (h : Sound rate burst u clock) (hrate : 0 ≤ rate) (hburst : 0 ≤ burst)
    (hle : clock ≤ now) : Sound rate burst (u.allowKeeping now key).1 now := by
  have hnow := h.wait hle
  obtain ⟨htokens, hlast⟩ : 0 ≤ (u.found now key).tokens ∧ (u.found now key).last ≤ now :=
    hnow.found hburst
  rw [allowKeeping_eq]
  exact hnow.spend hrate hburst htokens hlast

/-- No call tells a limiter that prunes from one that does not. -/
theorem Alike.same_answers (hrate : 0 < rate) (hburst : 0 ≤ burst) (calls : List Call) :
    ∀ {p u : Limiter} {clock : Time}, Alike p u clock → Sound rate burst u clock →
      (∀ call ∈ calls, clock ≤ call.1) → InOrder calls →
      answers Limiter.allow p calls = answers allowKeeping u calls := by
  induction calls with
  | nil => exact fun _ _ _ _ => rfl
  | cons call calls ih =>
    obtain ⟨now, key⟩ := call
    intro p u clock h hu hlater horder
    have hle : clock ≤ now := hlater _ List.mem_cons_self
    obtain ⟨hanswer, hnext⟩ : (p.allow now key).2 = (u.allowKeeping now key).2 ∧
        Alike (p.allow now key).1 (u.allowKeeping now key).1 now := h.allow hu hrate hburst hle
    have hrest := ih hnext (hu.allowKeeping hrate.le hburst hle)
      (List.pairwise_cons.mp horder).1 (List.pairwise_cons.mp horder).2
    rw [answers, answers, hanswer, hrest]

/-! ## What is let through -/

/-- What a limiter that never prunes lets through for a key. -/
def meter (key : String) : Meter Limiter Call Time Rat where
  step l call := (l.allowKeeping call.1 call.2).1
  time call := call.1
  clock := seconds
  spent l call := if call.2 = key ∧ (l.allowKeeping call.1 call.2).2 = true then 1 else 0
  avail l t := ((l.found t key).refill l.rate l.burst t).tokens

theorem avail_eq (h : Sound rate burst l now) : (meter key).avail l now =
    min burst ((l.found now key).tokens + seconds (sub now (l.found now key).last) * rate) := by
  show ((l.found now key).refill l.rate l.burst now).tokens = _
  rw [Bucket.refill_eq, h.rate, h.burst]

theorem meter_paced (key : String) (hrate : 0 < rate) (hburst : 0 ≤ burst) :
    (meter key).Paced rate burst (Sound rate burst) where
  clock _ _ h := seconds_mono h
  rate_nonneg := hrate.le
  nonneg {l t} h := by
    obtain ⟨htokens, hlast⟩ : 0 ≤ (l.found t key).tokens ∧ (l.found t key).last ≤ t :=
      h.found hburst
    show 0 ≤ ((l.found t key).refill l.rate l.burst t).tokens
    rw [h.rate, h.burst]
    exact Bucket.tokens_refill_nonneg hrate.le hburst htokens hlast
  le_burst h := avail_eq h ▸ min_le_left _ _
  wait h hle := h.wait hle
  grows {l t t'} h hle := by
    rw [avail_eq h, avail_eq (h.wait hle)]
    have hadd : seconds t' - seconds t = seconds (t' - t) := by
      rw [sub_eq_iff_eq_add, ← seconds_add, Int.sub_add_cancel]
    show _ ≤ _ + rate * (seconds t' - seconds t)
    rw [hadd]
    have hwait := mul_nonneg hrate.le (seconds_zero ▸ seconds_mono (Int.sub_nonneg_of_le hle))
    cases hb : l.buckets[key]? with
    | none =>
      -- there is no bucket, and a new one is full
      have hfull : ∀ now, l.found now key = ⟨burst, now⟩ := fun now => by
        unfold found
        rw [hb, h.burst]
        rfl
      rw [hfull, hfull, sub_self, sub_self]
      exact le_add_of_nonneg_right hwait
    | some b =>
      have hfound : ∀ now, l.found now key = b := fun now => by
        unfold found
        rw [hb]
        rfl
      have hmore := mul_le_mul_of_nonneg_right
        ((seconds_mono (sub_grows b.last hle)).trans_eq (seconds_add _ _)) hrate.le
      rw [hfound, hfound, ← min_add_add_right]
      refine min_le_min (le_add_of_nonneg_right hwait) ?_
      linarith
  step h := h.allowKeeping hrate.le hburst le_rfl
  spends {l call} h := by
    obtain ⟨now, k⟩ := call
    have h : Sound rate burst l now := h
    have h' : Sound rate burst (l.allowKeeping now k).1 now := h.allowKeeping hrate.le hburst le_rfl
    show (meter key).avail (l.allowKeeping now k).1 now +
      (if k = key ∧ (l.allowKeeping now k).2 = true then 1 else 0) ≤ (meter key).avail l now
    rw [avail_eq h']
    by_cases hk : k = key
    · subst hk
      have hfound : (l.allowKeeping now k).1.found now k =
          ((l.found now k).spend l.rate l.burst now).1 := by
        rw [allowKeeping_eq]
        show ((l.spend now k (l.found now k)).1.buckets[k]?).getD _ = _
        rw [get_spend, if_pos rfl]
        rfl
      have hanswer : (l.allowKeeping now k).2 = ((l.found now k).spend l.rate l.burst now).2 := by
        rw [allowKeeping_eq]
        rfl
      obtain ⟨hlast, hleft⟩ := (l.found now k).spend_left l.rate l.burst now
      show _ ≤ ((l.found now k).refill l.rate l.burst now).tokens
      rw [hfound, hanswer, hlast, sub_self, seconds_zero, zero_mul, add_zero, ← hleft]
      simp only [true_and]
      exact add_le_add_left (min_le_right _ _) _
    · have hfound : (l.allowKeeping now k).1.found now key = l.found now key := by
        unfold found
        rw [allowKeeping_eq, get_spend, if_neg hk]
        rfl
      rw [if_neg fun hspent => hk hspent.1, add_zero, hfound, avail_eq h]

/-- The calls allowed in a window are what the meter of the key counts there. -/
theorem allowed_eq (key : String) (start stop : Rat) (calls : List Call) :
    ∀ l : Limiter, (allowed key start stop calls (answers allowKeeping l calls) : Rat) =
      (meter key).spentIn start stop l calls := by
  induction calls with
  | nil => exact fun _ => Nat.cast_zero
  | cons call calls ih =>
    obtain ⟨now, k⟩ := call
    intro l
    rw [Meter.spentIn]
    show _ = (if start ≤ seconds now ∧ seconds now ≤ stop then
      (if k = key ∧ (l.allowKeeping now k).2 = true then (1 : Rat) else 0) else 0) +
        (meter key).spentIn start stop (l.allowKeeping now k).1 calls
    rw [← ih]
    unfold allowed
    rw [answers, List.zip_cons_cons, List.countP_cons, Nat.cast_add, add_comm]
    congr 1
    by_cases hwindow : start ≤ seconds now ∧ seconds now ≤ stop
    · by_cases hcounts : k = key ∧ (l.allowKeeping now k).2 = true
      · simp [hwindow, hcounts]
      · rw [if_pos hwindow, if_neg hcounts, if_neg, Nat.cast_zero]
        exact fun h => hcounts ⟨(of_decide_eq_true h).2.1, (of_decide_eq_true h).1⟩
    · rw [if_neg hwindow, if_neg, Nat.cast_zero]
      exact fun h => hwindow (of_decide_eq_true h).2.2

theorem timed_of_inOrder (key : String) (calls : List Call) :
    ∀ {clock : Time}, (∀ call ∈ calls, clock ≤ call.1) → InOrder calls →
      (meter key).Timed clock calls := by
  induction calls with
  | nil => exact fun _ _ => trivial
  | cons call calls ih =>
    intro clock hlater horder
    exact ⟨hlater call List.mem_cons_self, ih (List.pairwise_cons.mp horder).1
      (List.pairwise_cons.mp horder).2⟩

end Limiter

/-- **A limiter keeps its rate**: in a window of `d` seconds no key is allowed more calls
than the burst and what comes in `d` seconds. That it drops buckets shows in no answer. -/
theorem limiter_bounds {rate burst : Rat} (hrate : 0 < rate) (hburst : 0 ≤ burst)
    {calls : List Call} (horder : InOrder calls) :
    (∀ (key : String) (start d : Rat), 0 ≤ d →
      (allowed key start (start + d) calls
        (answers Limiter.allow (newLimiter rate burst) calls) : Rat) ≤ burst + rate * d) ∧
    answers Limiter.allow (newLimiter rate burst) calls =
      answers Limiter.allowKeeping (newLimiter rate burst) calls := by
  obtain ⟨clock, hclock⟩ : ∃ clock : Time, ∀ call ∈ calls, clock ≤ call.1 := by
    cases calls with
    | nil => exact ⟨0, fun _ h => absurd h List.not_mem_nil⟩
    | cons call calls =>
      refine ⟨call.1, fun c hc => ?_⟩
      rcases List.mem_cons.mp hc with rfl | hc
      · exact le_rfl
      · exact (List.pairwise_cons.mp horder).1 c hc
  have hnew := Limiter.Sound.new rate burst clock
  have hsame := Limiter.Alike.same_answers hrate hburst calls
    ⟨rfl, rfl, fun _ => .inl rfl⟩ hnew hclock horder
  refine ⟨fun key start d hd => ?_, hsame⟩
  have hwindow : start ≤ start + d := le_add_of_nonneg_right hd
  have hbound := (Limiter.meter_paced key hrate hburst).spentIn_le hwindow calls hnew
    (Limiter.timed_of_inOrder key calls hclock horder)
  rw [add_sub_cancel_left] at hbound
  rwa [hsame, Limiter.allowed_eq]

/-- Two calls at once and one a second later, at one token a second and a burst of one. -/
theorem limiter_bounds_three :
    answers Limiter.allow (newLimiter 1 1) [(0, "a"), (0, "a"), (1000000000, "a")] =
        [true, false, true] ∧
      (∀ (key : String) (start d : Rat), 0 ≤ d →
        (allowed key start (start + d) [(0, "a"), (0, "a"), (1000000000, "a")]
          (answers Limiter.allow (newLimiter 1 1) [(0, "a"), (0, "a"), (1000000000, "a")]) : Rat) ≤
            1 + 1 * d) :=
  ⟨by decide +kernel, (limiter_bounds (by decide) (by decide) (by decide)).1⟩

end FusionLocalServer.Chat.RateLimit
