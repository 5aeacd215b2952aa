import FusionLocalServer.ApsBudget.Cache
import FusionLocalServer.Lib.Run

/-!
# Coalesced calls

The calls of `Do` in any interleaving of their steps: a call looks for a stored answer, then
joins the fetch in flight for its key or begins one, and then waits for it to land or gives up.
Of a fetch, the upstream's reading of its data, the return to the leader, which stores the
answer, and the landing, which lets go of the key, are steps of their own. `singleflight` is
taken as it is documented: one fetch for a key at a time, whose result all callers get that
joined it.

An answer carries along which fetch it is of and what the upstream had written when it was
read. The calls' log, and what the cache was last invalidated for, are kept for the statements.
-/

namespace ApsBudget.Coalesce

/-- What a fetch returned. -/
structure Answer (V : Type) where
  val : V
  /-- The number of the fetch. -/
  fetch : Nat
  /-- How many writes the upstream had had when it read the data. -/
  version : Nat

/-- The bounds of a cache, for its answers. -/
def answerLimits {V : Type} (lim : Limits V) : Limits (Answer V) where
  maxEntries := lim.maxEntries
  maxBytes := lim.maxBytes
  size a := lim.size a.val

/-- The function a leader runs. -/
structure Flight (V : Type) where
  key : String
  /-- Run past the cache, for one caller. -/
  direct : Bool
  /-- What the upstream had had of writes when it read the data. -/
  read : Option Nat := none
  /-- What it has returned: an answer, or an error. -/
  result : Option (Option (Answer V)) := none
  landed : Bool := false

inductive Phase (V : Type) where
  /-- Found nothing stored, or did not look. -/
  | missed
  /-- Joined the fetch. -/
  | waiting (fetch : Nat)
  /-- With an answer, or an error. -/
  | returned (answer : Option (Answer V))

structure Call (V : Type) where
  key : String
  phase : Phase V
  /-- The invalidations before it. -/
  marks : List (String × Nat)

/-- A call that has not returned. -/
def Call.Active {V : Type} (c : Call V) : Prop := c.phase = .missed ∨ ∃ n, c.phase = .waiting n

structure World (V : Type) where
  now : Time := 0
  cache : Cache (Answer V) := {}
  /-- The fetch in flight for a key. -/
  group : String → Option Nat := fun _ => none
  flights : List (Flight V) := []
  calls : List (Call V) := []
  /-- The writes the upstream has had. -/
  version : Nat := 0
  /-- The writes that have completed. -/
  written : Nat := 0
  /-- The subjects that were invalidated, with the writes completed before. -/
  marks : List (String × Nat) := []
  /-- The answers the calls have returned, with their keys. -/
  log : List (String × Answer V) := []

inductive Event (V : Type) where
  | tick (d : Nat)
  /-- A write takes effect upstream. -/
  | write
  /-- The writes so far, up to the given one, have completed. -/
  | complete (version : Nat)
  | invalidate (sub : String)
  /-- A call begins, and looks for a stored answer unless it is marked fresh. -/
  | look (key : String) (fresh : Bool)
  /-- It joins the fetch in flight, or begins one. -/
  | join (call : Nat)
  /-- The upstream reads the data of a fetch. -/
  | serve (fetch : Nat)
  /-- The fetch returns a value, or an error, and the value is stored. -/
  | answer (fetch : Nat) (v : Option V)
  | land (fetch : Nat)
  | finish (call : Nat)
  | giveUp (call : Nat)

/-- The parameters: the cache's bounds, and how long the answers for a key are kept, which its
operation says. -/
structure Setup (V : Type) where
  lim : Limits V
  ttl : String → Duration

namespace World

variable {V : Type}

/-- Calls for the key go through the cache. -/
def Coalesced (cfg : Setup V) (key : String) : Prop := 0 < cfg.ttl key ∧ key ≠ ""

instance (cfg : Setup V) (key : String) : Decidable (Coalesced cfg key) :=
  inferInstanceAs (Decidable (_ ∧ _))

def setCall (w : World V) (i : Nat) (phase : Phase V) : World V :=
  { w with calls := w.calls.modify i fun c => { c with phase } }

def setFlight (w : World V) (n : Nat) (f : Flight V) : World V :=
  { w with flights := w.flights.set n f }

/-- A call begins. -/
def newCall (w : World V) (key : String) (phase : Phase V) : World V :=
  { w with calls := w.calls ++ [{ key, phase, marks := w.marks }] }

def look (cfg : Setup V) (w : World V) (key : String) (fresh : Bool) : World V :=
  if ¬ Coalesced cfg key then
    let next : World V := { w with flights := w.flights ++ [{ key, direct := true }] }
    next.newCall key (.waiting w.flights.length)
  else if fresh then w.newCall key .missed
  else
    match w.cache.get w.now key with
    | (cache, some a) =>
      let next : World V := { w with cache, log := w.log ++ [(key, a)] }
      next.newCall key (.returned (some a))
    | (cache, none) =>
      let next : World V := { w with cache }
      next.newCall key .missed

/-- Begins a fetch, which the call waits for. -/
def lead (w : World V) (i : Nat) (key : String) : World V :=
  let n := w.flights.length
  let next : World V := { w with
    flights := w.flights ++ [{ key, direct := false }]
    group := Function.update w.group key (some n) }
  next.setCall i (.waiting n)

def join (w : World V) (i : Nat) (key : String) : World V :=
  match w.group key with
  | some n => w.setCall i (.waiting n)
  | none => w.lead i key

def answer (cfg : Setup V) (w : World V) (n : Nat) (f : Flight V) (a : Option (Answer V)) :
    World V :=
  let w := w.setFlight n { f with result := some a }
  match f.direct, a with
  | false, some a =>
    { w with cache := w.cache.put (answerLimits cfg.lim) w.now f.key a (cfg.ttl f.key) }
  | _, _ => w

def land (w : World V) (n : Nat) (f : Flight V) : World V :=
  let w := w.setFlight n { f with landed := true }
  if w.group f.key = some n then { w with group := Function.update w.group f.key none } else w

def finish (w : World V) (i : Nat) (key : String) (result : Option (Answer V)) : World V :=
  let next : World V := { w with log := w.log ++ (result.map fun a => (key, a)).toList }
  next.setCall i (.returned result)

/-- One event, if it can happen. -/
def step (cfg : Setup V) (w : World V) : Event V → Option (World V)
  | .tick d => some { w with now := w.now + d }
  | .write => some { w with version := w.version + 1 }
  | .complete version =>
    if version ≤ w.version then some { w with written := max w.written version } else none
  | .invalidate sub =>
    some { w with
      cache := w.cache.invalidateSubject sub
      marks := if sub = "" then w.marks else w.marks ++ [(sub, w.written)] }
  | .look key fresh => some (w.look cfg key fresh)
  | .join i =>
    match w.calls[i]? with
    | some { key, phase := .missed, .. } => some (w.join i key)
    | _ => none
  | .serve n =>
    match w.flights[n]? with
    | some f =>
      if f.read.isNone && f.result.isNone then
        some (w.setFlight n { f with read := some w.version })
      else none
    | none => none
  | .answer n v =>
    match w.flights[n]? with
    | some f =>
      match f.result, v, f.read with
      | none, some v, some version =>
        some (w.answer cfg n f (some { val := v, fetch := n, version }))
      | none, none, _ => some (w.answer cfg n f none)
      | _, _, _ => none
    | none => none
  | .land n =>
    match w.flights[n]? with
    | some f => if f.result.isSome && !f.landed then some (w.land n f) else none
    | none => none
  | .finish i =>
    match w.calls[i]? with
    | some { key, phase := .waiting n, .. } =>
      match w.flights[n]? with
      | some { result := some result, landed := true, .. } => some (w.finish i key result)
      | _ => none
    | _ => none
  | .giveUp i =>
    match w.calls[i]? with
    | some { phase := .waiting _, .. } => some (w.setCall i (.returned none))
    | _ => none

def Happens (cfg : Setup V) (w : World V) (e : Event V) (w' : World V) : Prop :=
  w.step cfg e = some w'

/-! ## What an event does -/

/-- The cases of a step, with what has held before it. -/
inductive Outcome (cfg : Setup V) (w : World V) : Event V → World V → Prop
  | tick (d : Nat) : Outcome cfg w (.tick d) { w with now := w.now + d }
  | write : Outcome cfg w .write { w with version := w.version + 1 }
  | complete {version : Nat} (h : version ≤ w.version) :
      Outcome cfg w (.complete version) { w with written := max w.written version }
  | invalidate (sub : String) : Outcome cfg w (.invalidate sub) { w with
      cache := w.cache.invalidateSubject sub
      marks := if sub = "" then w.marks else w.marks ++ [(sub, w.written)] }
  | direct {key : String} (fresh : Bool) (hkey : ¬ Coalesced cfg key) :
      Outcome cfg w (.look key fresh) { w with
        flights := w.flights ++ [{ key, direct := true }]
        calls := w.calls ++ [{ key, phase := .waiting w.flights.length, marks := w.marks }] }
  | hit {key : String} {e : Entry (Answer V)} {cache : Cache (Answer V)}
      (hkey : Coalesced cfg key) (he : e ∈ w.cache.lru) (hek : e.key = key)
      (hlt : w.now < e.expires) (hcache : ∀ x ∈ cache.lru, x ∈ w.cache.lru) :
      Outcome cfg w (.look key false) { w with
        cache, log := w.log ++ [(key, e.val)]
        calls := w.calls ++ [{ key, phase := .returned (some e.val), marks := w.marks }] }
  | miss {key : String} {fresh : Bool} {cache : Cache (Answer V)} (hkey : Coalesced cfg key)
      (hcache : ∀ x ∈ cache.lru, x ∈ w.cache.lru) :
      Outcome cfg w (.look key fresh) { w with
        cache, calls := w.calls ++ [{ key, phase := .missed, marks := w.marks }] }
  | joined {i n : Nat} {c : Call V} (hcall : w.calls[i]? = some c) (hphase : c.phase = .missed)
      (hgroup : w.group c.key = some n) : Outcome cfg w (.join i) (w.setCall i (.waiting n))
  | led {i : Nat} {c : Call V} (hcall : w.calls[i]? = some c) (hphase : c.phase = .missed)
      (hgroup : w.group c.key = none) : Outcome cfg w (.join i) (w.lead i c.key)
  | served {n : Nat} {f : Flight V} (hf : w.flights[n]? = some f) (hread : f.read = none)
      (hresult : f.result = none) :
      Outcome cfg w (.serve n) (w.setFlight n { f with read := some w.version })
  | answered {n version : Nat} {f : Flight V} {v : V} (hf : w.flights[n]? = some f)
      (hread : f.read = some version) (hresult : f.result = none) :
      Outcome cfg w (.answer n (some v))
        (w.answer cfg n f (some { val := v, fetch := n, version }))
  | failed {n : Nat} {f : Flight V} (hf : w.flights[n]? = some f) (hresult : f.result = none) :
      Outcome cfg w (.answer n none) (w.setFlight n { f with result := some none })
  | landed {n : Nat} {f : Flight V} (hf : w.flights[n]? = some f) (hresult : f.result ≠ none)
      (hlanded : f.landed = false) : Outcome cfg w (.land n) (w.land n f)
  | finished {i n : Nat} {c : Call V} {f : Flight V} {result : Option (Answer V)}
      (hcall : w.calls[i]? = some c) (hphase : c.phase = .waiting n)
      (hf : w.flights[n]? = some f) (hresult : f.result = some result)
      (hlanded : f.landed = true) : Outcome cfg w (.finish i) (w.finish i c.key result)
  | gaveUp {i n : Nat} {c : Call V} (hcall : w.calls[i]? = some c)
      (hphase : c.phase = .waiting n) : Outcome cfg w (.giveUp i) (w.setCall i (.returned none))

theorem step_cases {cfg : Setup V} {w w' : World V} {e : Event V}
    (h : w.step cfg e = some w') : Outcome cfg w e w' := by
  cases e with
  | tick d =>
    cases h
    exact .tick d
  | write =>
    cases h
    exact .write
  | complete version =>
    obtain ⟨hle, hw⟩ := Option.ite_none_right_eq_some.mp h
    cases hw
    exact .complete hle
  | invalidate sub =>
    cases h
    exact .invalidate sub
  | look key fresh =>
    cases h
    unfold look
    split
    · next hkey => exact .direct fresh hkey
    · next hkey =>
      rw [not_not] at hkey
      split
      · exact .miss hkey fun x hx => hx
      · next hfresh =>
        cases fresh with
        | true => exact absurd rfl hfresh
        | false =>
          have hmem : ∀ x ∈ (w.cache.get w.now key).1.lru, x ∈ w.cache.lru :=
            fun x hx => Cache.mem_get hx
          split
          · next cache a hget =>
            obtain ⟨e, he, hek, hlt, rfl⟩ := Cache.get_hit (congrArg Prod.snd hget)
            rw [hget] at hmem
            exact .hit hkey he hek hlt hmem
          · next cache hget =>
            rw [hget] at hmem
            exact .miss hkey hmem
  | join i =>
    unfold step at h
    dsimp only at h
    split at h
    · next key marks hcall =>
      cases h
      unfold join
      split
      · next n hgroup => exact .joined hcall rfl hgroup
      · next hgroup => exact .led hcall rfl hgroup
    · cases h
  | serve n =>
    unfold step at h
    dsimp only at h
    split at h
    · next f hf =>
      obtain ⟨hnone, hw⟩ := Option.ite_none_right_eq_some.mp h
      cases hw
      rw [Bool.and_eq_true, Option.isNone_iff_eq_none, Option.isNone_iff_eq_none] at hnone
      exact .served hf hnone.1 hnone.2
    · cases h
  | answer n v =>
    unfold step at h
    dsimp only at h
    split at h
    · next f hf =>
      split at h
      · next hresult hread =>
        cases h
        exact .answered hf hread hresult
      · next hresult =>
        cases h
        have hanswer : w.answer cfg n f none = w.setFlight n { f with result := some none } := by
          unfold answer
          cases f.direct <;> rfl
        rw [hanswer]
        exact .failed hf hresult
      · cases h
    · cases h
  | land n =>
    unfold step at h
    dsimp only at h
    split at h
    · next f hf =>
      obtain ⟨hsome, hw⟩ := Option.ite_none_right_eq_some.mp h
      cases hw
      rw [Bool.and_eq_true, Option.isSome_iff_ne_none, Bool.not_eq_true'] at hsome
      exact .landed hf hsome.1 hsome.2
    · cases h
  | finish i =>
    unfold step at h
    dsimp only at h
    split at h
    · next key n marks hcall =>
      split at h
      · next hf =>
        cases h
        exact .finished hcall rfl hf rfl rfl
      · cases h
    · cases h
  | giveUp i =>
    unfold step at h
    dsimp only at h
    split at h
    · next hcall =>
      cases h
      exact .gaveUp hcall rfl
    · cases h

end World

end ApsBudget.Coalesce
