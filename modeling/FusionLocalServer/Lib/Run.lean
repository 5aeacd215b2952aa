/-!
# Runs of a transition system

A system is a step relation `step s e t` over states `σ` and events `ε`. `Run step ok s
es t` says that the events `es` lead from `s` to `t`, every one of them taken in a state
in which `ok` admits it. With `ok` constantly true these are all runs; a guard restricts
attention to the runs whose every step meets a condition on the state before it.

The two rules are the induction every safety argument needs: an invariant preserved by
each admitted step holds in every state reached (`Run.invariant`), and a relation between
the start and the current state that is reflexive and extended by each step holds along
the run (`Run.relates`).
-/

namespace Lib

universe u v

variable {σ : Type u} {ε : Type v}

/-- The events `es`, each admitted by `ok` where it is taken, lead from `s` to the last
state. -/
inductive Run (step : σ → ε → σ → Prop) (ok : σ → ε → Prop) (s : σ) :
    List ε → σ → Prop
  | nil : Run step ok s [] s
  | snoc {es : List ε} {t u : σ} {e : ε} :
      Run step ok s es t → ok t e → step t e u → Run step ok s (es ++ [e]) u

/-- The guard that admits every event everywhere. -/
def always : σ → ε → Prop := fun _ _ => True

instance (s : σ) (e : ε) : Decidable (always s e) := inferInstanceAs (Decidable True)

namespace Run

variable {step : σ → ε → σ → Prop} {ok : σ → ε → Prop} {s t u : σ} {es fs : List ε}

/-- What every admitted step preserves holds in every state reached. -/
theorem invariant {P : σ → Prop} (h : Run step ok s es t) (h₀ : P s)
    (hstep : ∀ s e t, P s → ok s e → step s e t → P t) : P t := by
  induction h with
  | nil => exact h₀
  | snoc _ hok hst ih => exact hstep _ _ _ ih hok hst

/-- A reflexive relation to the start that every admitted step extends holds along the
run. -/
theorem relates {R : σ → σ → Prop} (h : Run step ok s es t) (hrefl : R s s)
    (hstep : ∀ t e u, R s t → ok t e → step t e u → R s u) : R s t :=
  h.invariant hrefl hstep

theorem single {e : ε} (hok : ok s e) (h : step s e t) : Run step ok s [e] t :=
  .snoc .nil hok h

theorem append (h₁ : Run step ok s es t) (h₂ : Run step ok t fs u) :
    Run step ok s (es ++ fs) u := by
  induction h₂ with
  | nil => rwa [List.append_nil]
  | snoc _ hok hst ih =>
    rw [← List.append_assoc]
    exact .snoc ih hok hst

/-- Prefixing one step. -/
theorem cons {e : ε} (hok : ok s e) (h : step s e t) (hr : Run step ok t es u) :
    Run step ok s (e :: es) u :=
  (single hok h).append hr

/-- A run under one guard is a run under any weaker one. -/
theorem mono {ok' : σ → ε → Prop} (h : Run step ok s es t)
    (hle : ∀ s e, ok s e → ok' s e) : Run step ok' s es t := by
  induction h with
  | nil => exact .nil
  | snoc _ hok hst ih => exact .snoc ih (hle _ _ hok) hst

/-- A function run over a list of events is a run, when the guard admits each of them
everywhere. -/
theorem foldl {f : σ → ε → σ} (es : List ε) (hok : ∀ s, ∀ e ∈ es, ok s e) :
    ∀ s, Run (fun s e t => f s e = t) ok s es (es.foldl f s) := by
  induction es with
  | nil => exact fun _ => .nil
  | cons e es ih =>
    intro s
    exact cons (hok s e List.mem_cons_self) rfl
      (ih (fun s e he => hok s e (List.mem_cons_of_mem _ he)) _)

theorem foldl_always (f : σ → ε → σ) (es : List ε) (s : σ) :
    Run (fun s e t => f s e = t) always s es (es.foldl f s) :=
  foldl es (fun _ _ _ => trivial) s

/-- Taking events one after the other, as long as each is admitted and leads somewhere. -/
def exec (step : σ → ε → Option σ) (ok : σ → ε → Prop) [∀ s e, Decidable (ok s e)] :
    List ε → σ → Option σ
  | [], s => some s
  | e :: es, s => if ok s e then (step s e).bind (exec step ok es) else none

/-- What can be executed is a run. -/
theorem of_exec {step : σ → ε → Option σ} {ok : σ → ε → Prop} [∀ s e, Decidable (ok s e)]
    (es : List ε) :
    ∀ {s t : σ}, exec step ok es s = some t → Run (fun s e t => step s e = some t) ok s es t := by
  induction es with
  | nil =>
    intro s t h
    cases h
    exact .nil
  | cons e es ih =>
    intro s t h
    rw [exec] at h
    split at h
    · next hok =>
      obtain ⟨u, hstep, hrest⟩ := Option.bind_eq_some_iff.mp h
      exact cons hok hstep (ih hrest)
    · cases h

end Run

/-! ## Properties of every step -/

section Throughout

variable {next : σ → ε → σ} {P Q : σ → ε → Prop}

/-- `P` holds of each of the events `es` in the state it is taken in, when they are taken one
after the other from a state on. -/
def Throughout (next : σ → ε → σ) (P : σ → ε → Prop) : σ → List ε → Prop
  | _, [] => True
  | s, e :: es => P s e ∧ Throughout next P (next s e) es

/-- Two properties that agree on every step from a state of the invariant, and one of which
keeps the invariant, agree on runs. -/
theorem throughout_iff {I : σ → Prop} {es : List ε}
    (hiff : ∀ s, I s → ∀ e ∈ es, (P s e ↔ Q s e))
    (hkeep : ∀ s, I s → ∀ e ∈ es, P s e → I (next s e)) :
    ∀ {s : σ}, I s → (Throughout next P s es ↔ Throughout next Q s es) := by
  induction es with
  | nil => exact fun _ => Iff.rfl
  | cons e es ih =>
    intro s hs
    have htail : P s e → (Throughout next P (next s e) es ↔ Throughout next Q (next s e) es) :=
      fun hp =>
        ih (fun s hs e he => hiff s hs e (List.mem_cons_of_mem _ he))
          (fun s hs e he => hkeep s hs e (List.mem_cons_of_mem _ he))
          (hkeep s hs e List.mem_cons_self hp)
    have hhead := hiff s hs e List.mem_cons_self
    constructor
    · rintro ⟨hp, hrest⟩
      exact ⟨hhead.mp hp, (htail hp).mp hrest⟩
    · rintro ⟨hq, hrest⟩
      have hp := hhead.mpr hq
      exact ⟨hp, (htail hp).mpr hrest⟩

end Throughout

end Lib
