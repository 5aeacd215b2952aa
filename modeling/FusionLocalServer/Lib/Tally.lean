import FusionLocalServer.Lib.Table

/-!
# Tallies

A map that is filled by going through a list: the elements that have a key add to what is kept
under it, which starts from the first of them. What comes out does not depend on the order of the
list when elements of one key may add in either order, also when one of them is the first
(`run_perm`), and a count of the elements loses none of those that have a key (`total_run`).
-/

namespace Lib

open Std

structure Tally (ε κ σ : Type) where
  key : ε → Option κ
  start : ε → σ
  add : σ → ε → σ

namespace Tally

variable {ε κ σ : Type} [DecidableEq κ] [Ord κ] [TransOrd κ] [LawfulEqOrd κ]

def put (t : Tally ε κ σ) (m : ExtTreeMap κ σ) (e : ε) : ExtTreeMap κ σ :=
  match t.key e with
  | none => m
  | some k => m.insert k (t.add (m[k]?.getD (t.start e)) e)

def run (t : Tally ε κ σ) (l : List ε) : ExtTreeMap κ σ := l.foldl t.put ∅

/-- What two elements of one key do to what is kept does not depend on which of them is first. -/
structure Commutes (t : Tally ε κ σ) (e e' : ε) : Prop where
  first : t.add (t.add (t.start e) e) e' = t.add (t.add (t.start e') e') e
  add : ∀ s, t.add (t.add s e) e' = t.add (t.add s e') e

variable {t : Tally ε κ σ} {m : ExtTreeMap κ σ} {e e' : ε} {l l' : List ε}

omit [DecidableEq κ] [Ord κ] [TransOrd κ] [LawfulEqOrd κ] in
theorem Commutes.of_start (hstart : t.start e = t.start e')
    (hadd : ∀ s, t.add (t.add s e) e' = t.add (t.add s e') e) : t.Commutes e e' :=
  ⟨by rw [hstart, hadd], hadd⟩

omit [DecidableEq κ] [LawfulEqOrd κ] in
theorem put_none (h : t.key e = none) : t.put m e = m := by
  rw [put, h]

omit [DecidableEq κ] [LawfulEqOrd κ] in
theorem put_some {k : κ} (h : t.key e = some k) :
    t.put m e = m.insert k (t.add (m[k]?.getD (t.start e)) e) := by
  rw [put, h]

theorem get_put {k : κ} (h : t.key e = some k) (a : κ) :
    (t.put m e)[a]? = if k = a then some (t.add (m[k]?.getD (t.start e)) e) else m[a]? := by
  rw [put_some h, Table.get_insert]

theorem put_comm (h : ∀ k, t.key e = some k → t.key e' = some k → t.Commutes e e') :
    t.put (t.put m e) e' = t.put (t.put m e') e := by
  cases hk : t.key e with
  | none => rw [put_none hk, put_none hk]
  | some k =>
    cases hk' : t.key e' with
    | none => rw [put_none hk', put_none hk']
    | some k' =>
      refine ExtTreeMap.ext_getElem? fun a => ?_
      simp only [get_put hk, get_put hk']
      by_cases hkk : k = k'
      · subst hkk
        obtain ⟨hfirst, hadd⟩ := h k hk hk'
        by_cases ha : k = a
        · simp only [ha, if_true, Option.getD_some]
          cases m[a]? with
          | none => rw [Option.getD_none, Option.getD_none, hfirst]
          | some s => rw [Option.getD_some, Option.getD_some, hadd]
        · simp only [ha, if_false]
      · rw [if_neg hkk, if_neg (Ne.symm hkk)]
        by_cases ha : k = a
        · simp [ha, show k' ≠ a from fun h => hkk (ha.trans h.symm)]
        · simp [ha]

/-- **The order of the list does not matter.** -/
theorem run_perm (hperm : l.Perm l')
    (h : ∀ e ∈ l, ∀ e' ∈ l, ∀ k, t.key e = some k → t.key e' = some k → t.Commutes e e') :
    t.run l = t.run l' :=
  hperm.foldl_eq' (fun e he e' he' _ => put_comm (h e he e' he')) ∅

section Total

variable {weight : σ → Int} (hstart : ∀ e, weight (t.start e) = 0)
  (hadd : ∀ s e, weight (t.add s e) = weight s + 1)

include hstart hadd

theorem total_put : Table.total (fun _ => weight) (t.put m e) =
    Table.total (fun _ => weight) m + if (t.key e).isSome then 1 else 0 := by
  cases hk : t.key e with
  | none => simp [put_none hk]
  | some k =>
    rw [put_some hk, Table.total_insert, hadd]
    cases hm : m[k]? with
    | none =>
      rw [Table.erase_self hm]
      simp [hstart, add_comm]
    | some s =>
      rw [Table.total_erase (fun _ => weight) hm]
      simp
      omega

theorem total_foldl (l : List ε) (m : ExtTreeMap κ σ) :
    Table.total (fun _ => weight) (l.foldl t.put m) =
      Table.total (fun _ => weight) m + l.countP fun e => (t.key e).isSome := by
  induction l generalizing m with
  | nil => simp
  | cons e l ih =>
    rw [List.foldl_cons, ih, total_put hstart hadd, List.countP_cons]
    push_cast
    omega

end Total

/-- **Each element that has a key is counted once.** -/
theorem total_run (t : Tally ε κ σ) (weight : σ → Int) (hstart : ∀ e, weight (t.start e) = 0)
    (hadd : ∀ s e, weight (t.add s e) = weight s + 1) (l : List ε) :
    Table.total (fun _ => weight) (t.run l) = l.countP fun e => (t.key e).isSome := by
  have h := total_foldl hstart hadd l ∅
  rwa [Table.total_empty, Int.zero_add] at h

end Tally

end Lib
