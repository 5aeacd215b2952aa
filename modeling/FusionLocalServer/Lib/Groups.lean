import Mathlib.Data.List.DropRight
import Mathlib.Data.List.Nodup
import Mathlib.Data.List.Perm.Basic
import FusionLocalServer.Lib.SortOn

/-!
# Groups and sorts by comparison

A map that keeps its keys in the order they came in (the `Map` of JavaScript), filled with the
elements of a list under their keys: `groupOn` has each key once, with the elements of that key as
the list has them, and no element is lost.

`sortBy` is the stable sort of arrays by a comparison of two elements. One that goes by a key, and is
not even asked for more than whether the later element comes before the earlier, sorts by that key.
-/

namespace Lib

variable {α κ : Type}

/-! ## Groups -/

section Groups

variable [DecidableEq κ]

/-- An element goes behind those of its key, or a new key behind all others. -/
def push (k : κ) (a : α) : List (κ × List α) → List (κ × List α)
  | [] => [(k, [a])]
  | g :: groups => if g.1 = k then (k, g.2 ++ [a]) :: groups else g :: push k a groups

def groupOn (key : α → κ) (l : List α) : List (κ × List α) :=
  l.foldl (fun groups a => push (key a) a groups) []

/-- Each key once, and under it the elements of a list that have it. -/
structure Grouped (key : α → κ) (l : List α) (groups : List (κ × List α)) : Prop where
  nodup : (groups.map (·.1)).Nodup
  mem_keys : ∀ k, k ∈ groups.map (·.1) ↔ ∃ a ∈ l, key a = k
  elements : ∀ g ∈ groups, g.2 = l.filter (key · = g.1)

theorem keys_push (k : κ) (a : α) (groups : List (κ × List α)) :
    (push k a groups).map (·.1) =
      if k ∈ groups.map (·.1) then groups.map (·.1) else groups.map (·.1) ++ [k] := by
  induction groups with
  | nil => rfl
  | cons g groups ih =>
    unfold push
    by_cases hg : g.1 = k
    · simp [hg]
    · rw [if_neg hg, List.map_cons, ih]
      by_cases hk : k ∈ groups.map (·.1)
      · rw [if_pos hk, List.map_cons, if_pos (List.mem_cons_of_mem _ hk)]
      · have hk' : k ∉ g.1 :: groups.map (·.1) := by
          rw [List.mem_cons]
          exact fun h => h.elim (fun heq => hg heq.symm) hk
        rw [if_neg hk, List.map_cons, if_neg hk', List.cons_append]

/-- A group after a push is an old one, with the new element if it is that of its key, or is new. -/
theorem mem_push {k : κ} {a : α} {groups : List (κ × List α)} (hnodup : (groups.map (·.1)).Nodup)
    {g : κ × List α} (h : g ∈ push k a groups) :
    (g ∈ groups ∧ g.1 ≠ k) ∨ (g.1 = k ∧ ∃ g' ∈ groups, g'.1 = k ∧ g.2 = g'.2 ++ [a]) ∨
      (g = (k, [a]) ∧ k ∉ groups.map (·.1)) := by
  induction groups with
  | nil => exact .inr (.inr ⟨List.mem_singleton.mp h, List.not_mem_nil⟩)
  | cons g' groups ih =>
    obtain ⟨hnew, hnodup⟩ := List.nodup_cons.mp hnodup
    unfold push at h
    split at h
    · next hk =>
      rcases List.mem_cons.mp h with rfl | h
      · exact .inr (.inl ⟨rfl, g', List.mem_cons_self, hk, rfl⟩)
      · refine .inl ⟨List.mem_cons_of_mem _ h, fun heq => hnew ?_⟩
        exact List.mem_map.mpr ⟨g, h, heq.trans hk.symm⟩
    · next hk =>
      rcases List.mem_cons.mp h with rfl | h
      · exact .inl ⟨List.mem_cons_self, hk⟩
      · rcases ih hnodup h with ⟨hmem, hne⟩ | ⟨heq, g'', hmem, hrest⟩ | ⟨heq, hfresh⟩
        · exact .inl ⟨List.mem_cons_of_mem _ hmem, hne⟩
        · exact .inr (.inl ⟨heq, g'', List.mem_cons_of_mem _ hmem, hrest⟩)
        · refine .inr (.inr ⟨heq, fun hmem => ?_⟩)
          rcases List.mem_cons.mp hmem with h | h
          · exact hk h.symm
          · exact hfresh h

theorem Grouped.push {key : α → κ} {l : List α} {groups : List (κ × List α)}
    (h : Grouped key l groups) (a : α) :
    Grouped key (l ++ [a]) (Lib.push (key a) a groups) where
  nodup := by
    rw [keys_push]
    split
    · exact h.nodup
    · next hnew =>
      refine List.nodup_append.mpr ⟨h.nodup, List.nodup_singleton _, fun k hk k' hk' heq => hnew ?_⟩
      rwa [← List.mem_singleton.mp hk', ← heq]
  mem_keys k := by
    have hkeys : k ∈ (Lib.push (key a) a groups).map (·.1) ↔ k ∈ groups.map (·.1) ∨ key a = k := by
      rw [keys_push]
      split
      · next hold => exact ⟨.inl, fun hk => hk.elim id fun heq => heq ▸ hold⟩
      · rw [List.mem_append, List.mem_singleton, eq_comm (a := k)]
    rw [hkeys, h.mem_keys]
    constructor
    · rintro (⟨b, hb, rfl⟩ | rfl)
      · exact ⟨b, List.mem_append_left _ hb, rfl⟩
      · exact ⟨a, List.mem_append_right _ (List.mem_singleton_self a), rfl⟩
    · rintro ⟨b, hb, rfl⟩
      rcases List.mem_append.mp hb with hb | hb
      · exact .inl ⟨b, hb, rfl⟩
      · exact .inr (congrArg key (List.mem_singleton.mp hb).symm)
  elements g hg := by
    rw [List.filter_append]
    rcases mem_push h.nodup hg with ⟨hmem, hne⟩ | ⟨heq, g', hmem, hg', hrest⟩ | ⟨rfl, hfresh⟩
    · rw [h.elements g hmem]
      simp [Ne.symm hne]
    · rw [hrest, h.elements g' hmem, heq, hg']
      simp
    · have hnone : l.filter (key · = key a) = [] := by
        refine List.filter_eq_nil_iff.mpr fun b hb hkey => hfresh ?_
        exact (h.mem_keys _).mpr ⟨b, hb, of_decide_eq_true hkey⟩
      simp [hnone]

/-- **The groups of a list.** -/
theorem grouped_groupOn (key : α → κ) (l : List α) : Grouped key l (groupOn key l) := by
  induction l using List.reverseRecOn with
  | nil => exact ⟨List.nodup_nil, fun k => by simp [groupOn], fun g hg => absurd hg List.not_mem_nil⟩
  | append_singleton l a ih =>
    have hsplit : groupOn key (l ++ [a]) = push (key a) a (groupOn key l) := by
      rw [groupOn, List.foldl_append]
      rfl
    rw [hsplit]
    exact ih.push a

theorem flatMap_push_perm (k : κ) (a : α) (groups : List (κ × List α)) :
    ((push k a groups).flatMap (·.2)).Perm (groups.flatMap (·.2) ++ [a]) := by
  induction groups with
  | nil => exact List.Perm.refl _
  | cons g groups ih =>
    unfold push
    split
    · simp only [List.flatMap_cons, List.append_assoc]
      exact List.Perm.append_left _ List.perm_append_comm
    · simp only [List.flatMap_cons, List.append_assoc]
      exact ih.append_left _

/-- **No element is lost.** -/
theorem flatMap_groupOn_perm (key : α → κ) (l : List α) :
    ((groupOn key l).flatMap (·.2)).Perm l := by
  induction l using List.reverseRecOn with
  | nil => exact List.Perm.refl _
  | append_singleton l a ih =>
    rw [groupOn, List.foldl_append]
    exact (flatMap_push_perm _ _ _).trans (ih.append_right _)

theorem Grouped.ne_nil {key : α → κ} {l : List α} {groups : List (κ × List α)}
    (h : Grouped key l groups) {g : κ × List α} (hg : g ∈ groups) : g.2 ≠ [] := by
  obtain ⟨a, ha, hkey⟩ := (h.mem_keys g.1).mp (List.mem_map_of_mem hg)
  rw [h.elements g hg]
  exact List.ne_nil_of_mem (List.mem_filter.mpr ⟨ha, decide_eq_true hkey⟩)

end Groups

/-! ## Sorts -/

/-- An element goes before the last ones that it comes before. -/
def insertBy (ahead : α → α → Bool) (a : α) (sorted : List α) : List α :=
  sorted.rdropWhile (ahead a) ++ a :: sorted.rtakeWhile (ahead a)

/-- A stable sort; `ahead a b` is asked of a later `a` and an earlier `b`. -/
def sortBy (ahead : α → α → Bool) (l : List α) : List α :=
  l.foldl (fun sorted a => insertBy ahead a sorted) []

theorem insertBy_perm (ahead : α → α → Bool) (a : α) (sorted : List α) :
    (insertBy ahead a sorted).Perm (sorted ++ [a]) := by
  have hsplit : sorted.rdropWhile (ahead a) ++ sorted.rtakeWhile (ahead a) = sorted :=
    List.rdropWhile_append_rtakeWhile
  have hlast : (a :: sorted.rtakeWhile (ahead a)).Perm (sorted.rtakeWhile (ahead a) ++ [a]) :=
    (List.perm_append_singleton a _).symm
  have hall := hlast.append_left (sorted.rdropWhile (ahead a))
  rwa [← List.append_assoc, hsplit] at hall

theorem sortBy_perm (ahead : α → α → Bool) (l : List α) : (sortBy ahead l).Perm l := by
  induction l using List.reverseRecOn with
  | nil => exact List.Perm.refl _
  | append_singleton l a ih =>
    rw [sortBy, List.foldl_append]
    exact (insertBy_perm _ _ _).trans (ih.append_right _)

/-- **A sort by a key.** -/
theorem pairwise_sortBy {β : Type} [LinearOrder β] (key : α → β) {ahead : α → α → Bool}
    (h : ∀ a b, ahead a b = true ↔ key a < key b) (l : List α) :
    (sortBy ahead l).Pairwise fun a b => key a ≤ key b := by
  induction l using List.reverseRecOn with
  | nil => exact List.Pairwise.nil
  | append_singleton l a ih =>
    rw [sortBy, List.foldl_append]
    show (insertBy ahead a (sortBy ahead l)).Pairwise _
    generalize sortBy ahead l = sorted at ih
    have hsplit : sorted.rdropWhile (ahead a) ++ sorted.rtakeWhile (ahead a) = sorted :=
      List.rdropWhile_append_rtakeWhile
    rw [← hsplit] at ih
    obtain ⟨hdrop, htake, hboth⟩ := List.pairwise_append.mp ih
    have hafter : ∀ b ∈ sorted.rtakeWhile (ahead a), key a ≤ key b := fun b hb =>
      ((h a b).mp (List.mem_rtakeWhile_imp hb)).le
    -- the last one it does not come before is no later, and so are those before that one
    have hbefore : ∀ b ∈ sorted.rdropWhile (ahead a), key b ≤ key a := by
      intro b hb
      have hne := List.ne_nil_of_mem hb
      have hlast := List.rdropWhile_last_not (ahead a) sorted hne
      have hle : key ((sorted.rdropWhile (ahead a)).getLast hne) ≤ key a :=
        not_lt.mp fun hlt => hlast ((h _ _).mpr hlt)
      refine le_trans ?_ hle
      rw [← List.dropLast_append_getLast hne] at hb hdrop
      rcases List.mem_append.mp hb with hb | hb
      · exact (List.pairwise_append.mp hdrop).2.2 b hb _ (List.mem_singleton_self _)
      · rw [List.mem_singleton.mp hb]
    refine List.pairwise_append.mpr ⟨hdrop, List.pairwise_cons.mpr ⟨hafter, htake⟩, ?_⟩
    intro b hb c hc
    rcases List.mem_cons.mp hc with rfl | hc
    · exact hbefore b hb
    · exact hboth b hb c hc

/-- What is sorted, with no two elements of one key, is what the sort gives. -/
theorem sortBy_eq_of_perm {β : Type} [LinearOrder β] {key : α → β} {ahead : α → α → Bool}
    (h : ∀ a b, ahead a b = true ↔ key a < key b) {l sorted : List α} (hperm : sorted.Perm l)
    (hsorted : sorted.Pairwise fun a b => key a < key b) : sortBy ahead l = sorted := by
  have hle : sorted.Pairwise fun a b => key a ≤ key b := hsorted.imp fun hlt => hlt.le
  have hinj : ∀ a ∈ sorted, ∀ b ∈ sorted, key a = key b → a = b :=
    List.inj_on_of_nodup_map (List.pairwise_map.mpr (hsorted.imp fun hlt => hlt.ne))
  have hall := (sortBy_perm ahead l).trans hperm.symm
  refine hall.eq_of_pairwise (fun a b ha hb hab hba => ?_) (pairwise_sortBy key h l) hle
  exact hinj a (hall.mem_iff.mp ha) b hb (le_antisymm hab hba)

/-! ## Insertions -/

theorem eq_of_map_eq {β : Type} {f : α → β} {l l' : List α}
    (hinj : ∀ a ∈ l, ∀ b ∈ l', f a = f b → a = b) (h : l.map f = l'.map f) : l = l' := by
  induction l generalizing l' with
  | nil => exact (List.map_eq_nil_iff.mp h.symm).symm
  | cons a l ih =>
    obtain ⟨b, l'', rfl, hab, hrest⟩ := List.map_eq_cons_iff.mp h.symm
    rw [hinj a List.mem_cons_self b List.mem_cons_self hab.symm]
    refine congrArg (b :: ·) (ih (fun x hx y hy => ?_) hrest.symm)
    exact hinj x (List.mem_cons_of_mem _ hx) y (List.mem_cons_of_mem _ hy)

/-- The element before a place. -/
def preceding (l : List α) : Nat → Option α
  | 0 => none
  | i + 1 => l[i]?

theorem rel_preceding {R : α → α → Prop} {l : List α} (hl : l.Pairwise R) {i : Nat} {a b : α}
    (ha : a ∈ preceding l i) (hb : b ∈ l[i]?) : R a b := by
  cases i with
  | zero => cases ha
  | succ i =>
    obtain ⟨hi, rfl⟩ := List.getElem?_eq_some_iff.mp ha
    obtain ⟨hj, rfl⟩ := List.getElem?_eq_some_iff.mp hb
    exact List.pairwise_iff_getElem.mp hl i (i + 1) hi hj (Nat.lt_succ_self i)

theorem insertIdx_eq_append {l : List α} {i : Nat} (h : i ≤ l.length) (a : α) :
    l.insertIdx i a = l.take i ++ a :: l.drop i := by
  induction l generalizing i with
  | nil =>
    obtain rfl := Nat.le_zero.mp h
    rfl
  | cons b l ih =>
    cases i with
    | zero => rfl
    | succ i => rw [List.insertIdx_succ_cons, ih (Nat.le_of_succ_le_succ h)]; rfl

theorem insertIdx_perm {l : List α} {i : Nat} (h : i ≤ l.length) (a : α) :
    (l.insertIdx i a).Perm (a :: l) := by
  rw [insertIdx_eq_append h]
  have hmid : (l.take i ++ a :: l.drop i).Perm (a :: (l.take i ++ l.drop i)) := List.perm_middle
  rwa [List.take_append_drop] at hmid

/-- **An insertion into a sorted list keeps it sorted** when the new element is between those
next to its place. -/
theorem pairwise_insertIdx_iff {β : Type} [LinearOrder β] {key : α → β} {l : List α}
    (hl : l.Pairwise fun a b => key a < key b) {i : Nat} (hi : i ≤ l.length) {x : α} :
    (l.insertIdx i x).Pairwise (fun a b => key a < key b) ↔
      (∀ a ∈ preceding l i, key a < key x) ∧ ∀ b ∈ l[i]?, key x < key b := by
  rw [insertIdx_eq_append hi, List.pairwise_append, List.pairwise_cons]
  rw [← List.take_append_drop i l, List.pairwise_append] at hl
  obtain ⟨htake, hdrop, hboth⟩ := hl
  constructor
  · rintro ⟨-, ⟨hafter, -⟩, hbefore⟩
    refine ⟨fun a ha => ?_, fun b hb => hafter b ?_⟩
    · cases i with
      | zero => cases ha
      | succ i =>
        refine hbefore a ?_ x List.mem_cons_self
        exact List.mem_of_getElem? ((List.getElem?_take_of_lt (Nat.lt_succ_self i)).trans ha)
    · have hhead : (l.drop i)[0]? = some b := by rwa [List.getElem?_drop]
      exact List.mem_of_getElem? hhead
  · rintro ⟨hbefore, hafter⟩
    -- the element at either side is the nearest one
    have hall : ∀ a ∈ l.take i, key a < key x := by
      cases i with
      | zero => exact fun a ha => absurd ha List.not_mem_nil
      | succ i =>
        intro a ha
        rw [List.take_add_one] at ha htake
        rcases List.mem_append.mp ha with ha | ha
        · obtain ⟨b, hb⟩ : ∃ b, l[i]? = some b := ⟨l[i], List.getElem?_eq_getElem hi⟩
          rw [hb] at htake
          have hab := (List.pairwise_append.mp htake).2.2 a ha b (List.mem_singleton_self b)
          exact hab.trans (hbefore b hb)
        · exact hbefore a (Option.mem_toList.mp ha)
    have hrest : ∀ b ∈ l.drop i, key x < key b := by
      intro b hb
      cases hd : l.drop i with
      | nil => rw [hd] at hb; cases hb
      | cons c rest =>
        have hc : l[i]? = some c := by
          have hhead : (l.drop i)[0]? = some c := by rw [hd]; rfl
          rwa [List.getElem?_drop] at hhead
        rw [hd] at hb hdrop
        rcases List.mem_cons.mp hb with rfl | hb
        · exact hafter _ hc
        · exact (hafter c hc).trans ((List.pairwise_cons.mp hdrop).1 b hb)
    refine ⟨htake, ⟨hrest, hdrop⟩, fun a ha b hb => ?_⟩
    rcases List.mem_cons.mp hb with rfl | hb
    · exact hall a ha
    · exact hboth a ha b hb

end Lib
