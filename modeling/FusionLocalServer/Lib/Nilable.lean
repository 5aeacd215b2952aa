import Mathlib.Data.List.Basic

/-!
# Lists of pointers, some of them nil

A list of pointers that was read from a document holds a nil for every `null` of it. What goes
through such a list ends in a panic at the first nil it comes to, unless it looks out for them.
-/

namespace Lib

inductive Panic where
  | nilDereference
  /-- A write into a nil map. -/
  | nilMap
deriving DecidableEq, Repr

namespace Panic

variable {α β : Type}

/-- A computation ends in a result, of some property. -/
def Ends (x : Except Panic α) (P : α → Prop) : Prop := ∃ a, x = .ok a ∧ P a

theorem Ends.mono {x : Except Panic α} {P Q : α → Prop} (h : Ends x P) (hq : ∀ a, P a → Q a) :
    Ends x Q := by
  obtain ⟨a, ha, hp⟩ := h
  exact ⟨a, ha, hq a hp⟩

theorem Ends.bind {x : Except Panic α} {f : α → Except Panic β} {P : α → Prop} {Q : β → Prop}
    (hx : Ends x P) (hf : ∀ a, P a → Ends (f a) Q) : Ends (x >>= f) Q := by
  obtain ⟨a, rfl, ha⟩ := hx
  exact hf a ha

theorem Ends.map {x : Except Panic α} {f : α → β} {P : α → Prop} {Q : β → Prop} (hx : Ends x P)
    (hf : ∀ a, P a → Q (f a)) : Ends (x.map f) Q := by
  obtain ⟨a, rfl, ha⟩ := hx
  exact ⟨f a, rfl, hf a ha⟩

end Panic

namespace Nilable

open Panic

variable {α β : Type}

/-- No pointer is nil. -/
def Whole (l : List (Option α)) : Prop := none ∉ l

instance (l : List (Option α)) : Decidable (Whole l) :=
  decidable_of_iff (∀ x ∈ l, x.isSome) <| by
    simp only [Whole, Option.isSome_iff_ne_none]
    exact ⟨fun h hnone => h none hnone rfl, fun h x hx heq => h (heq ▸ hx)⟩

/-- What is behind a pointer. -/
def deref : Option α → Except Panic α
  | none => .error .nilDereference
  | some a => .ok a

/-- Goes through the list with each of what is behind its pointers. -/
def each (f : α → Except Panic β) : List (Option α) → Except Panic (List β)
  | [] => .ok []
  | p :: rest => do
    let a ← deref p
    let b ← f a
    let bs ← each f rest
    pure (b :: bs)

/-- The first that is looked for, and its place. -/
def search (p : α → Bool) : List (Option α) → Except Panic (Option (Nat × α))
  | [] => .ok none
  | q :: rest => do
    let a ← deref q
    if p a then pure (some (0, a))
    else
      let found ← search p rest
      pure (found.map fun (i, a) => (i + 1, a))

/-! ## Lists without a nil -/

theorem whole_nil : Whole ([] : List (Option α)) := fun h => (nomatch h)

theorem whole_cons {p : Option α} {l : List (Option α)} :
    Whole (p :: l) ↔ p ≠ none ∧ Whole l := by
  rw [Whole, List.mem_cons, not_or, ne_comm]
  rfl

theorem Whole.append {l m : List (Option α)} (hl : Whole l) (hm : Whole m) : Whole (l ++ m) :=
  fun h => (List.mem_append.mp h).elim hl hm

theorem whole_map (f : α → β) (l : List α) : Whole (l.map fun a => some (f a)) := by
  intro h
  obtain ⟨a, -, ha⟩ := List.mem_map.mp h
  cases ha

theorem Whole.eraseIdx {l : List (Option α)} (h : Whole l) (i : Nat) : Whole (l.eraseIdx i) :=
  fun hnone => h (List.mem_of_mem_eraseIdx hnone)

theorem Whole.set {l : List (Option α)} (h : Whole l) (i : Nat) (a : α) :
    Whole (l.set i (some a)) := by
  intro hnone
  rcases List.mem_or_eq_of_mem_set hnone with hold | hnew
  · exact h hold
  · cases hnew

theorem Whole.modify {l : List (Option α)} (h : Whole l) (i : Nat) (f : α → α) :
    Whole (l.modify i (Option.map f)) := by
  intro hnone
  obtain ⟨k, hk⟩ := List.mem_iff_getElem?.mp hnone
  rw [List.getElem?_modify] at hk
  cases hget : l[k]? with
  | none => simp [hget] at hk
  | some x =>
    cases x with
    | none => exact h (List.mem_of_getElem? hget)
    | some a =>
      rw [hget] at hk
      split at hk <;> cases hk

/-! ## What comes to no panic -/

theorem each_ends {f : α → Except Panic β} {P : β → Prop} {l : List (Option α)} (hl : Whole l)
    (hf : ∀ a, some a ∈ l → Ends (f a) P) : Ends (each f l) fun bs => ∀ b ∈ bs, P b := by
  induction l with
  | nil => exact ⟨[], rfl, fun _ hb => (nomatch hb)⟩
  | cons p rest ih =>
    cases p with
    | none => exact absurd List.mem_cons_self hl
    | some a =>
      refine Ends.bind ⟨a, rfl, rfl⟩ fun _ ha => (hf _ (ha ▸ List.mem_cons_self)).bind fun b hb => ?_
      refine (ih (whole_cons.mp hl).2 fun a ha => hf a (List.mem_cons_of_mem _ ha)).bind
        fun bs hbs => ⟨b :: bs, rfl, ?_⟩
      exact List.forall_mem_cons.mpr ⟨hb, hbs⟩

/-- What was gone through had no nil, and each of it comes of one there. -/
theorem of_each {f : α → Except Panic β} {l : List (Option α)} :
    ∀ {bs : List β}, each f l = .ok bs →
      Whole l ∧ ∀ a, some a ∈ l → ∃ b ∈ bs, f a = .ok b := by
  induction l with
  | nil => exact fun _ => ⟨whole_nil, fun _ ha => (nomatch ha)⟩
  | cons p rest ih =>
    intro bs h
    cases p with
    | none => cases h
    | some a =>
      cases hb : f a with
      | error e => simp [each, deref, hb, bind, Except.bind] at h
      | ok b =>
        cases hrest : each f rest with
        | error e => simp [each, deref, hb, hrest, bind, Except.bind] at h
        | ok rest' =>
          simp only [each, deref, hb, hrest, bind, Except.bind, pure, Except.pure] at h
          cases h
          obtain ⟨hwhole, hmem⟩ := ih hrest
          refine ⟨whole_cons.mpr ⟨Option.some_ne_none a, hwhole⟩, fun a' ha' => ?_⟩
          rcases List.mem_cons.mp ha' with heq | ha'
          · cases heq
            exact ⟨b, List.mem_cons_self, hb⟩
          · obtain ⟨b', hb', hf⟩ := hmem a' ha'
            exact ⟨b', List.mem_cons_of_mem _ hb', hf⟩

/-- What goes through a list and changes each. -/
theorem each_total (f : α → β) {l : List (Option α)} (hl : Whole l) :
    ∃ bs, each (fun a => .ok (f a)) l = .ok bs ∧ bs.map some = l.map (Option.map f) := by
  induction l with
  | nil => exact ⟨[], rfl, rfl⟩
  | cons p rest ih =>
    cases p with
    | none => exact absurd List.mem_cons_self hl
    | some a =>
      obtain ⟨bs, hbs, hmap⟩ := ih (whole_cons.mp hl).2
      refine ⟨f a :: bs, ?_, by simp [hmap]⟩
      simp [each, deref, hbs, bind, Except.bind, pure, Except.pure]

theorem search_ends (p : α → Bool) {l : List (Option α)} (h : Whole l) :
    Ends (search p l) fun found => ∀ i a, found = some (i, a) → some a ∈ l := by
  induction l with
  | nil => exact ⟨none, rfl, fun _ _ h => (nomatch h)⟩
  | cons q rest ih =>
    cases q with
    | none => exact absurd List.mem_cons_self h
    | some a =>
      unfold search
      refine Ends.bind ⟨a, rfl, rfl⟩ fun b hb => ?_
      subst hb
      split
      · exact ⟨_, rfl, fun i a' ha' => by cases ha'; exact List.mem_cons_self⟩
      · refine (ih (whole_cons.mp h).2).bind fun found hfound => ⟨_, rfl, fun i a' ha' => ?_⟩
        obtain ⟨⟨k, b⟩, hk, heq⟩ := Option.map_eq_some_iff.mp ha'
        cases heq
        exact List.mem_cons_of_mem _ (hfound k _ hk)

/-- A search for what is not there comes to the nil. -/
theorem search_panics {p : α → Bool} {l : List (Option α)} (hnil : none ∈ l)
    (hnot : ∀ a, some a ∈ l → p a = false) : search p l = .error .nilDereference := by
  induction l with
  | nil => cases hnil
  | cons q rest ih =>
    cases q with
    | none => rfl
    | some a =>
      have hrest := ih ((List.mem_cons.mp hnil).resolve_left (Option.some_ne_none a).symm)
        fun b hb => hnot b (List.mem_cons_of_mem _ hb)
      simp [search, deref, hnot a List.mem_cons_self, hrest, bind, Except.bind]

/-- The first that is looked for is found, past others that have no nil among them. -/
theorem search_append {p : α → Bool} {before after : List (Option α)} {a : α}
    (hwhole : Whole before) (hnot : ∀ b, some b ∈ before → p b = false) (ha : p a = true) :
    search p (before ++ some a :: after) = .ok (some (before.length, a)) := by
  induction before with
  | nil => simp [search, deref, ha, bind, Except.bind, pure, Except.pure]
  | cons q rest ih =>
    cases q with
    | none => exact absurd List.mem_cons_self hwhole
    | some b =>
      have hrest := ih (whole_cons.mp hwhole).2 fun b hb => hnot b (List.mem_cons_of_mem _ hb)
      simp [search, deref, hnot b List.mem_cons_self, hrest, bind, Except.bind, pure, Except.pure]

end Nilable

/-! ## Runs -/

namespace Panic

variable {σ ε : Type} {step : σ → ε → Except Panic σ}

/-- Takes the events one after the other, up to a panic. -/
def run (step : σ → ε → Except Panic σ) : σ → List ε → Except Panic σ
  | s, [] => .ok s
  | s, e :: es =>
    match step s e with
    | .error p => .error p
    | .ok s => run step s es

/-- What every step keeps, and never panics in, keeps every run from a panic. -/
theorem run_ok {I : σ → Prop} (hstep : ∀ s e, I s → ∃ s', step s e = .ok s' ∧ I s')
    (es : List ε) : ∀ {s}, I s → ∃ s', run step s es = .ok s' := by
  induction es with
  | nil => exact fun {s} _ => ⟨s, rfl⟩
  | cons e es ih =>
    intro s hs
    obtain ⟨s', hs', hI⟩ := hstep s e hs
    obtain ⟨t, ht⟩ := ih hI
    exact ⟨t, by rw [run, hs']; exact ht⟩

/-- A step into a panic. -/
theorem run_panics {s : σ} {e : ε} {p : Panic} (h : step s e = .error p) :
    ¬ ∃ s', run step s [e] = .ok s' := by
  rintro ⟨s', hs'⟩
  simp [run, h] at hs'

end Panic

end Lib
