import Mathlib.Algebra.Order.BigOperators.Group.List
import Mathlib.Algebra.Order.Ring.Nat
import Mathlib.Data.Finset.Card
import Mathlib.Logic.Relation

/-!
# Directed graphs given by a list of edges

Reachability by depth-first search with a set of the nodes seen and a stack, and what it is
for: adding an edge `a → b` to an acyclic graph closes a cycle exactly when `b` already
reaches `a`.

The search is given as much fuel as there are edges, and one more. Each turn takes a node
off the stack, and a node is pushed only when it is seen for the first time as the head of
an edge, so the fuel never runs out before the stack is empty.
-/

namespace Lib

namespace Graph

variable {α : Type} [DecidableEq α] {edges : List (α × α)}

/-- One sweep over the edges for those leaving `cur`: the heads not seen before are marked
and pushed, and there is no result when one of them is the target. -/
def sweep (cur target : α) : List (α × α) → List α × List α → Option (List α × List α)
  | [], found => some found
  | e :: es, (seen, stack) =>
    if e.1 ≠ cur ∨ e.2 ∈ seen then sweep cur target es (seen, stack)
    else if e.2 = target then none
    else sweep cur target es (e.2 :: seen, e.2 :: stack)

/-- The loop of the search; the top of the stack is the head of the list. -/
def search (edges : List (α × α)) (target : α) : Nat → List α × List α → Bool
  | 0, _ => false
  | _ + 1, (_, []) => false
  | fuel + 1, (seen, cur :: stack) =>
    match sweep cur target edges (seen, stack) with
    | none => true
    | some found => search edges target fuel found

/-- The target can be reached from the start. -/
def reaches (edges : List (α × α)) (start target : α) : Bool :=
  if start = target then true
  else search edges target (edges.length + 1) ([start], [start])

/-- There is an edge from `a` to `b`. -/
def Link (edges : List (α × α)) (a b : α) : Prop := (a, b) ∈ edges

/-- No node reaches itself over one edge or more. -/
def Acyclic (edges : List (α × α)) : Prop := ∀ a, ¬ Relation.TransGen (Link edges) a a

/-! ## The search -/

theorem sweep_none {cur target : α} :
    ∀ {es : List (α × α)} {found : List α × List α}, sweep cur target es found = none →
      (cur, target) ∈ es := by
  intro es
  induction es with
  | nil => exact fun h => (nomatch h)
  | cons e es ih =>
    rintro ⟨seen, stack⟩ h
    rw [sweep] at h
    split at h
    · exact List.mem_cons_of_mem _ (ih h)
    · next hnew =>
      split at h
      · next htarget =>
        have hcur : e.1 = cur := by
          by_contra hne
          exact hnew (.inl hne)
        rw [← hcur, ← htarget]
        exact List.mem_cons_self
      · exact List.mem_cons_of_mem _ (ih h)

/-- A sweep marks and pushes the same new nodes, and leaves no head of an edge from `cur`
unseen. -/
theorem sweep_some {cur target : α} :
    ∀ {es : List (α × α)} {seen stack seen' stack' : List α},
      sweep cur target es (seen, stack) = some (seen', stack') →
      ∃ new, seen' = new ++ seen ∧ stack' = new ++ stack ∧ new.Nodup ∧
        (∀ x ∈ new, x ∉ seen ∧ x ≠ target ∧ (cur, x) ∈ es) ∧
        ∀ x, (cur, x) ∈ es → x ∈ seen' := by
  intro es
  induction es with
  | nil =>
    intro seen stack seen' stack' h
    cases h
    exact ⟨[], rfl, rfl, List.nodup_nil, fun _ h => (nomatch h), fun _ h => (nomatch h)⟩
  | cons e es ih =>
    intro seen stack seen' stack' h
    rw [sweep] at h
    split at h
    · next hold =>
      obtain ⟨new, hseen, hstack, hnodup, hnew, hall⟩ := ih h
      refine ⟨new, hseen, hstack, hnodup, fun x hx => ?_, fun x hx => ?_⟩
      · obtain ⟨h₁, h₂, h₃⟩ := hnew x hx
        exact ⟨h₁, h₂, List.mem_cons_of_mem _ h₃⟩
      · rcases List.mem_cons.mp hx with heq | hx
        · subst heq
          rcases hold with hne | hmem
          · exact absurd rfl hne
          · rw [hseen]
            exact List.mem_append_right _ hmem
        · exact hall x hx
    · next hfresh =>
      rw [not_or, not_not] at hfresh
      split at h
      · cases h
      · next htarget =>
        obtain ⟨new, hseen, hstack, hnodup, hnew, hall⟩ := ih h
        refine ⟨new ++ [e.2], ?_, ?_, ?_, fun x hx => ?_, fun x hx => ?_⟩
        · rw [hseen, List.append_assoc]
          rfl
        · rw [hstack, List.append_assoc]
          rfl
        · rw [List.nodup_append]
          refine ⟨hnodup, List.nodup_singleton _, fun a ha b hb heq => ?_⟩
          rw [List.mem_singleton] at hb
          exact (hnew a ha).1 (by rw [heq, hb]; exact List.mem_cons_self)
        · rcases List.mem_append.mp hx with hx | hx
          · obtain ⟨h₁, h₂, h₃⟩ := hnew x hx
            exact ⟨fun hmem => h₁ (List.mem_cons_of_mem _ hmem), h₂,
              List.mem_cons_of_mem _ h₃⟩
          · rw [List.mem_singleton] at hx
            subst hx
            refine ⟨hfresh.2, htarget, ?_⟩
            rw [← hfresh.1]
            exact List.mem_cons_self
        · rcases List.mem_cons.mp hx with heq | hx
          · rw [hseen, ← heq]
            exact List.mem_append_right _ List.mem_cons_self
          · exact hall x hx

/-- The heads of edges not seen yet. -/
def unseen (edges : List (α × α)) (seen : List α) : Finset α :=
  (edges.map Prod.snd).toFinset.filter fun x => x ∉ seen

theorem card_unseen_append {seen new : List α} (hnodup : new.Nodup)
    (hnew : ∀ x ∈ new, x ∉ seen ∧ x ∈ edges.map Prod.snd) :
    (unseen edges (new ++ seen)).card + new.length ≤ (unseen edges seen).card := by
  have hdisj : Disjoint (unseen edges (new ++ seen)) new.toFinset := by
    rw [Finset.disjoint_left]
    intro x hx hmem
    rw [List.mem_toFinset] at hmem
    exact (Finset.mem_filter.mp hx).2 (List.mem_append_left _ hmem)
  have hsub : unseen edges (new ++ seen) ∪ new.toFinset ⊆ unseen edges seen := by
    intro x hx
    rw [Finset.mem_union] at hx
    rcases hx with hx | hx
    · obtain ⟨hedge, hnot⟩ := Finset.mem_filter.mp hx
      exact Finset.mem_filter.mpr ⟨hedge, fun h => hnot (List.mem_append_right _ h)⟩
    · rw [List.mem_toFinset] at hx
      exact Finset.mem_filter.mpr ⟨List.mem_toFinset.mpr (hnew x hx).2, (hnew x hx).1⟩
  have hcard := Finset.card_le_card hsub
  rwa [Finset.card_union_of_disjoint hdisj, List.toFinset_card_of_nodup hnodup] at hcard

/-- A search that finds nothing leaves a set closed under the edges, without the target:
every node off the stack has all its successors seen. -/
theorem not_reachable_of_search {start target : α} (fuel : Nat) :
    ∀ seen stack : List α, search edges target fuel (seen, stack) = false →
      stack.length + (unseen edges seen).card ≤ fuel → start ∈ seen → target ∉ seen →
      (∀ x ∈ seen, x ∉ stack → ∀ y, (x, y) ∈ edges → y ∈ seen) →
      ¬ Relation.ReflTransGen (Link edges) start target := by
  have closed : ∀ seen : List α, start ∈ seen → target ∉ seen →
      (∀ x ∈ seen, x ∉ ([] : List α) → ∀ y, (x, y) ∈ edges → y ∈ seen) →
      ¬ Relation.ReflTransGen (Link edges) start target := by
    intro seen hstart htarget hall hreach
    have hmem : ∀ y, Relation.ReflTransGen (Link edges) start y → y ∈ seen := by
      intro y hy
      induction hy with
      | refl => exact hstart
      | tail _ hlink ih => exact hall _ ih List.not_mem_nil _ hlink
    exact htarget (hmem _ hreach)
  induction fuel with
  | zero =>
    intro seen stack _ hfuel hstart htarget hall
    have hnil : stack = [] := List.length_eq_zero_iff.mp (by omega)
    subst hnil
    exact closed seen hstart htarget hall
  | succ fuel ih =>
    intro seen stack h hfuel hstart htarget hall
    cases stack with
    | nil => exact closed seen hstart htarget hall
    | cons cur stack =>
      rw [search] at h
      split at h
      · cases h
      · next found hsweep =>
        obtain ⟨seen', stack'⟩ := found
        obtain ⟨new, rfl, rfl, hnodup, hnew, hsucc⟩ := sweep_some hsweep
        have hcard := card_unseen_append hnodup fun x hx =>
          ⟨(hnew x hx).1, List.mem_map.mpr ⟨_, (hnew x hx).2.2, rfl⟩⟩
        refine ih _ _ h ?_ (List.mem_append_right _ hstart) ?_ ?_
        · rw [List.length_append]
          rw [List.length_cons] at hfuel
          omega
        · intro hmem
          rcases List.mem_append.mp hmem with hmem | hmem
          · exact (hnew _ hmem).2.1 rfl
          · exact htarget hmem
        · intro x hx hout y hxy
          by_cases hcur : x = cur
          · subst hcur
            exact hsucc y hxy
          · rcases List.mem_append.mp hx with hx | hx
            · exact absurd (List.mem_append_left _ hx) hout
            · have hoff : x ∉ cur :: stack := by
                intro hmem
                rcases List.mem_cons.mp hmem with h | h
                · exact hcur h
                · exact hout (List.mem_append_right _ h)
              exact List.mem_append_right _ (hall x hx hoff y hxy)

theorem reachable_of_search {start target : α} (fuel : Nat) :
    ∀ seen stack : List α, search edges target fuel (seen, stack) = true →
      (∀ x ∈ stack, Relation.ReflTransGen (Link edges) start x) →
      Relation.ReflTransGen (Link edges) start target := by
  induction fuel with
  | zero => exact fun _ _ h => (nomatch h)
  | succ fuel ih =>
    intro seen stack h hstack
    cases stack with
    | nil => cases h
    | cons cur stack =>
      have hcur := hstack cur List.mem_cons_self
      rw [search] at h
      split at h
      · next hsweep => exact hcur.tail (sweep_none hsweep)
      · next found hsweep =>
        obtain ⟨seen', stack'⟩ := found
        obtain ⟨new, rfl, rfl, -, hnew, -⟩ := sweep_some hsweep
        refine ih _ _ h fun x hx => ?_
        rcases List.mem_append.mp hx with hx | hx
        · exact hcur.tail (hnew x hx).2.2
        · exact hstack x (List.mem_cons_of_mem _ hx)

/-- The search is right. -/
theorem reaches_iff {start target : α} :
    reaches edges start target = true ↔ Relation.ReflTransGen (Link edges) start target := by
  unfold reaches
  split
  · next heq =>
    subst heq
    exact ⟨fun _ => .refl, fun _ => rfl⟩
  · next hne =>
    constructor
    · intro h
      refine reachable_of_search _ _ _ h fun x hx => ?_
      rw [List.mem_singleton] at hx
      subst hx
      exact .refl
    · intro hreach
      by_contra hcon
      refine not_reachable_of_search _ _ _ (by simpa using hcon) ?_ List.mem_cons_self ?_ ?_
        hreach
      · have hle : (unseen edges [start]).card ≤ edges.length :=
          (Finset.card_filter_le _ _).trans
            ((List.toFinset_card_le _).trans (List.length_map _).le)
        rw [List.length_singleton]
        omega
      · rw [List.mem_singleton]
        exact fun h => hne h.symm
      · intro x hx hout
        exact absurd hx hout

/-! ## A search along lists of successors -/

section Walk

variable (next : α → List α) (target : α)

/-- The loop of a search that marks a node when it takes it off the stack, and then pushes
its successors, seen or not; the top of the stack is the head of the list. -/
def walk : Nat → List α → List α → Bool
  | 0, _, _ => false
  | _ + 1, _, [] => false
  | fuel + 1, seen, x :: stack =>
    if x = target then true
    else if x ∈ seen then walk fuel seen stack
    else walk fuel (x :: seen) ((next x).reverse ++ stack)

/-- A step of a path that stops when it comes to the target. -/
def Before (a b : α) : Prop := a ≠ target ∧ b ∈ next a

variable {next target}

/-- The successors of the nodes not seen yet. -/
def pushes (next : α → List α) (nodes seen : List α) : Nat :=
  (nodes.map fun x => if x ∈ seen then 0 else (next x).length).sum

/-- Marking a node makes up for pushing its successors. -/
theorem pushes_cons {nodes seen : List α} {x : α} (hx : x ∈ nodes ∨ next x = [])
    (hnew : x ∉ seen) :
    (next x).length + pushes next nodes (x :: seen) ≤ pushes next nodes seen := by
  have hone : ∀ y, (if y ∈ x :: seen then 0 else (next y).length) ≤
      if y ∈ seen then 0 else (next y).length := by
    intro y
    by_cases hy : y ∈ seen
    · rw [if_pos hy, if_pos (List.mem_cons_of_mem _ hy)]
    · rw [if_neg hy]
      split <;> omega
  have hmono : ∀ nodes, pushes next nodes (x :: seen) ≤ pushes next nodes seen :=
    fun nodes => List.sum_le_sum fun y _ => hone y
  rcases hx with hx | hx
  · induction nodes with
    | nil => cases hx
    | cons y nodes ih =>
      have hrest := hmono nodes
      have hfirst := hone y
      unfold pushes at ih hrest ⊢
      rw [List.map_cons, List.sum_cons, List.map_cons, List.sum_cons]
      rcases List.mem_cons.mp hx with rfl | hx
      · rw [if_pos List.mem_cons_self, if_neg hnew]
        omega
      · have := ih hx
        omega
  · rw [hx, List.length_nil, Nat.zero_add]
    exact hmono nodes

/-- A search that finds nothing leaves no path to the target from what is on its stack.
All but the target that was seen has its successors seen or on the stack. -/
theorem not_before_of_walk {nodes : List α} (hnodes : ∀ x, x ∈ nodes ∨ next x = []) (fuel : Nat) :
    ∀ seen stack : List α, walk next target fuel seen stack = false →
      stack.length + pushes next nodes seen < fuel →
      (∀ x ∈ seen, x ≠ target → ∀ y ∈ next x, y ∈ stack ∨ y ∈ seen ∧ y ≠ target) →
      ∀ x, x ∈ stack ∨ x ∈ seen ∧ x ≠ target →
        ¬ Relation.ReflTransGen (Before next target) x target := by
  induction fuel with
  | zero => exact fun _ _ _ hfuel => absurd hfuel (Nat.not_lt_zero _)
  | succ fuel ih =>
    intro seen stack h hfuel hclosed x hx hpath
    cases stack with
    | nil =>
      have hmem : ∀ y, Relation.ReflTransGen (Before next target) x y → y ∈ seen ∧ y ≠ target := by
        intro y hy
        induction hy with
        | refl => exact hx.resolve_left List.not_mem_nil
        | tail _ hlink ih =>
          exact (hclosed _ ih.1 ih.2 _ hlink.2).resolve_left List.not_mem_nil
      exact (hmem target hpath).2 rfl
    | cons top stack =>
      rw [walk] at h
      rw [List.length_cons] at hfuel
      split at h
      · cases h
      · next htop =>
        split at h
        · next hseen =>
          refine ih seen stack h (by omega) (fun u hu hut v hv => ?_) x ?_ hpath
          · rcases hclosed u hu hut v hv with hv | hv
            · rcases List.mem_cons.mp hv with rfl | hv
              · exact .inr ⟨hseen, htop⟩
              · exact .inl hv
            · exact .inr hv
          · rcases hx with hx | hx
            · rcases List.mem_cons.mp hx with rfl | hx
              · exact .inr ⟨hseen, htop⟩
              · exact .inl hx
            · exact .inr hx
        · next hnew =>
          have hpushes := pushes_cons (hnodes top) hnew
          refine ih (top :: seen) ((next top).reverse ++ stack) h ?_ (fun u hu hut v hv => ?_) x ?_
            hpath
          · rw [List.length_append, List.length_reverse]
            omega
          · rcases List.mem_cons.mp hu with rfl | hu
            · exact .inl (List.mem_append_left _ (List.mem_reverse.mpr hv))
            · rcases hclosed u hu hut v hv with hv | ⟨hv, hvt⟩
              · rcases List.mem_cons.mp hv with rfl | hv
                · exact .inr ⟨List.mem_cons_self, htop⟩
                · exact .inl (List.mem_append_right _ hv)
              · exact .inr ⟨List.mem_cons_of_mem _ hv, hvt⟩
          · rcases hx with hx | ⟨hx, hxt⟩
            · rcases List.mem_cons.mp hx with rfl | hx
              · exact .inr ⟨List.mem_cons_self, htop⟩
              · exact .inl (List.mem_append_right _ hx)
            · exact .inr ⟨List.mem_cons_of_mem _ hx, hxt⟩

end Walk

/-! ## Acyclic graphs -/

omit [DecidableEq α]

theorem Acyclic.mono {es fs : List (α × α)} (h : Acyclic fs) (hsub : ∀ e ∈ es, e ∈ fs) :
    Acyclic es :=
  fun a hcycle => h a (Relation.TransGen.mono (fun _ _ hlink => hsub _ hlink) a a hcycle)

theorem acyclic_nil : Acyclic ([] : List (α × α)) := by
  intro a hcycle
  obtain ⟨b, hlink, -⟩ := Relation.TransGen.head'_iff.mp hcycle
  cases hlink

/-- A path over the edges and one more runs over the old ones, or through the new one. -/
theorem path_append_cases {a b x y : α}
    (h : Relation.TransGen (Link (edges ++ [(a, b)])) x y) :
    Relation.TransGen (Link edges) x y ∨
      Relation.ReflTransGen (Link edges) x a ∧ Relation.ReflTransGen (Link edges) b y := by
  have hlink : ∀ {u v : α}, Link (edges ++ [(a, b)]) u v → Link edges u v ∨ u = a ∧ v = b := by
    intro u v h
    rcases List.mem_append.mp h with h | h
    · exact .inl h
    · rw [List.mem_singleton, Prod.mk.injEq] at h
      exact .inr h
  induction h with
  | single h =>
    rcases hlink h with h | ⟨rfl, rfl⟩
    · exact .inl (.single h)
    · exact .inr ⟨.refl, .refl⟩
  | tail hpath h ih =>
    rcases hlink h with h | ⟨rfl, rfl⟩
    · rcases ih with ih | ⟨hto, hfrom⟩
      · exact .inl (ih.tail h)
      · exact .inr ⟨hto, hfrom.tail h⟩
    · rcases ih with ih | ⟨hto, -⟩
      · exact .inr ⟨ih.to_reflTransGen, .refl⟩
      · exact .inr ⟨hto, .refl⟩

/-- An edge whose head does not reach its tail closes no cycle. -/
theorem Acyclic.append {a b : α} (h : Acyclic edges)
    (hnot : ¬ Relation.ReflTransGen (Link edges) b a) : Acyclic (edges ++ [(a, b)]) := by
  intro x hcycle
  rcases path_append_cases hcycle with hold | ⟨hto, hfrom⟩
  · exact h x hold
  · exact hnot (hfrom.trans hto)

/-- The edges out of one node are replaced. If no path goes from where they lead back to the
node, they close no cycle. -/
theorem Acyclic.redirect {fs : List (α × α)} {s : α} (h : Acyclic edges)
    (hsame : ∀ a b, a ≠ s → (a, b) ∈ fs → (a, b) ∈ edges)
    (hnot : ∀ b, (s, b) ∈ fs →
      ¬ Relation.ReflTransGen (fun u v => u ≠ s ∧ (u, v) ∈ edges) b s) : Acyclic fs := by
  -- a path to the node, cut where it first comes there, takes none of the new edges
  have hcut : ∀ {x}, Relation.ReflTransGen (Link fs) x s →
      Relation.ReflTransGen (fun u v => u ≠ s ∧ (u, v) ∈ edges) x s := by
    intro x hpath
    induction hpath using Relation.ReflTransGen.head_induction_on with
    | refl => exact .refl
    | @head u v hlink _ ih =>
      by_cases hu : u = s
      · rw [hu]
      · exact .head ⟨hu, hsame u v hu hlink⟩ ih
  have hthrough : ¬ Relation.TransGen (Link fs) s s := by
    intro hcycle
    obtain ⟨b, hlink, hrest⟩ := Relation.TransGen.head'_iff.mp hcycle
    exact hnot b hlink (hcut hrest)
  intro x hcycle
  -- a cycle that does not come to the node is one of the old graph
  by_cases hvisit : Relation.ReflTransGen (Link fs) x s ∧ Relation.ReflTransGen (Link fs) s x
  · obtain ⟨hto, hfrom⟩ := hvisit
    exact hthrough ((hcycle.trans_right hfrom).trans_left hto)
  · refine h x ?_
    have hold : ∀ y, Relation.TransGen (Link fs) x y → Relation.ReflTransGen (Link fs) y x →
        Relation.TransGen (Link edges) x y := by
      intro y hy
      induction hy with
      | single hlink =>
        intro hback
        refine .single (hsame _ _ ?_ hlink)
        rintro rfl
        exact hvisit ⟨.refl, .refl⟩
      | tail hpath hlink ih =>
        intro hback
        refine .tail (ih (.head hlink hback)) (hsame _ _ ?_ hlink)
        rintro rfl
        exact hvisit ⟨hpath.to_reflTransGen, .head hlink hback⟩
    exact hold x hcycle .refl

end Graph

end Lib
