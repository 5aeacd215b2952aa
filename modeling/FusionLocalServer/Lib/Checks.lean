import Mathlib.Data.List.Basic

/-!
# Checks that were passed

What is known when a computation that may be refused came through: the checks on its way
did not hold it up, and the searches on its way found something.
-/

namespace Lib

/-- A check: the error when the condition holds. -/
def refuse {ε : Type} (p : Prop) [Decidable p] (e : ε) : Except ε Unit :=
  if p then .error e else .ok ()

@[simp] theorem refuse_iff {ε : Type} {p : Prop} [Decidable p] {e : ε} :
    refuse p e = .ok () ↔ ¬ p := by
  unfold refuse
  split <;> simp [*]

@[simp] theorem refuse_bind_iff {ε β : Type} {p : Prop} [Decidable p] {e : ε}
    {f : Unit → Except ε β} {b : β} : (refuse p e >>= f) = .ok b ↔ ¬ p ∧ f () = .ok b := by
  unfold refuse
  split
  · next h => exact ⟨fun hb => (nomatch hb), fun hb => absurd h hb.1⟩
  · next h => exact ⟨fun hb => ⟨h, hb⟩, fun hb => hb.2⟩

theorem bind_ok {ε α β : Type} {x : Except ε α} {f : α → Except ε β} {b : β}
    (h : x >>= f = .ok b) : ∃ a, x = .ok a ∧ f a = .ok b := by
  cases x with
  | error e => cases h
  | ok a => exact ⟨a, rfl, h⟩

theorem guard_ok {ε β : Type} {p : Prop} [Decidable p] {e : ε} {f : PUnit → Except ε β} {b : β}
    (h : (if p then (throw e : Except ε PUnit) >>= f else f ⟨⟩) = .ok b) :
    ¬ p ∧ f ⟨⟩ = .ok b := by
  split at h
  · cases h
  · next hp => exact ⟨hp, h⟩

theorem refuse_ok {ε β : Type} {p : Prop} [Decidable p] {e : ε} {x : Except ε β} {b : β}
    (h : (if p then .error e else x) = .ok b) : ¬ p ∧ x = .ok b := by
  split at h
  · cases h
  · next hp => exact ⟨hp, h⟩

/-- The index a search came up with, and what is there. -/
theorem findIdx_ok {α : Type} {p : α → Bool} {xs : List α} {k : Nat}
    (h : xs.findIdx? p = some k) : ∃ x, xs[k]? = some x ∧ p x = true := by
  obtain ⟨hk, hp, -⟩ := List.findIdx?_eq_some_iff_getElem.mp h
  exact ⟨xs[k], List.getElem?_eq_getElem hk, hp⟩

/-- What a search came up with. -/
theorem find_ok {α : Type} {q : α → Prop} [DecidablePred q] {xs : List α} {x : α}
    (h : xs.find? (fun x => decide (q x)) = some x) : x ∈ xs ∧ q x :=
  ⟨List.mem_of_find?_eq_some h, by simpa using List.find?_some h⟩

end Lib
