import FusionLocalServer.Lib.RelPath

/-!
# Where a rooted path leads

The components of a rooted path, walked from the root: an empty one and `.` stay, `..` goes up
unless it is at the root, and any other goes down. The walk ends below a child of the root when
one of the components is that child, met at the root and never left again.
-/

namespace Lib

namespace Path

/-- How deep a walk ends that begins at depth `d`. -/
def depth : Nat → List String → Nat
  | d, [] => d
  | d, comp :: rest =>
    if comp = "" ∨ comp = "." then depth d rest
    else if comp = ".." then depth (d - 1) rest
    else depth (d + 1) rest

/-- A walk that begins at depth `d` never goes up from depth zero. -/
def Stays : Nat → List String → Prop
  | _, [] => True
  | d, comp :: rest =>
    if comp = "" ∨ comp = "." then Stays d rest
    else if comp = ".." then 0 < d ∧ Stays (d - 1) rest
    else Stays (d + 1) rest

instance Stays.decidable : ∀ d comps, Decidable (Stays d comps)
  | _, [] => .isTrue trivial
  | d, comp :: rest => by
    unfold Stays
    have := Stays.decidable d rest
    have := Stays.decidable (d - 1) rest
    have := Stays.decidable (d + 1) rest
    infer_instance

theorem length_push (acc : Path) (comp : String) :
    (push acc comp).length = depth acc.length [comp] := by
  unfold push depth
  split
  · rfl
  · split <;> simp [depth]

theorem depth_cons (d : Nat) (comp : String) (rest : List String) :
    depth d (comp :: rest) = depth (depth d [comp]) rest := by
  simp only [depth]
  split
  · rfl
  · split <;> rfl

theorem depth_append (xs : List String) :
    ∀ d ys, depth d (xs ++ ys) = depth (depth d xs) ys := by
  induction xs with
  | nil => exact fun d ys => rfl
  | cons x xs ih =>
    intro d ys
    rw [List.cons_append, depth_cons, ih, depth_cons d x xs]

/-- Cleaning leaves as many components as the walk goes deep. -/
theorem length_foldl_push (comps : List String) :
    ∀ acc : Path, (comps.foldl push acc).length = depth acc.length comps := by
  induction comps with
  | nil => exact fun acc => rfl
  | cons comp rest ih =>
    intro acc
    rw [List.foldl_cons, ih, length_push, depth_cons acc.length comp rest]

theorem length_clean (comps : List String) : (clean comps).length = depth 0 comps :=
  length_foldl_push comps []

theorem stays_snoc (xs : List String) (comp : String) :
    ∀ d, Stays d (xs ++ [comp]) ↔ Stays d xs ∧ (comp = ".." → 0 < depth d xs) := by
  induction xs with
  | nil =>
    intro d
    by_cases hskip : comp = "" ∨ comp = "."
    · have hne : comp ≠ ".." := by
        rcases hskip with rfl | rfl <;> decide
      simp [Stays, hskip, hne]
    · by_cases hup : comp = ".." <;> simp [Stays, hskip, hup, depth]
  | cons x xs ih =>
    intro d
    simp only [List.cons_append, Stays, depth]
    split
    · exact ih d
    · split
      · rw [ih, and_assoc]
      · exact ih (d + 1)

/-- What stays below a component leaves it where it is. -/
theorem foldl_push_below (x : String) (after : List String) :
    ∀ acc : Path, Stays acc.length after →
      after.foldl push (x :: acc) = x :: after.foldl push acc := by
  induction after with
  | nil => exact fun acc _ => rfl
  | cons comp rest ih =>
    intro acc h
    rw [List.foldl_cons, List.foldl_cons]
    simp only [Stays] at h
    by_cases hskip : comp = "" ∨ comp = "."
    · rw [if_pos hskip] at h
      rw [push, if_pos hskip, push, if_pos hskip]
      exact ih acc h
    rw [if_neg hskip] at h
    by_cases hup : comp = ".."
    · rw [if_pos hup] at h
      have hne : acc ≠ [] := List.ne_nil_of_length_pos h.1
      rw [push, if_neg hskip, if_pos hup, push, if_neg hskip, if_pos hup,
        List.dropLast_cons_of_ne_nil hne]
      exact ih acc.dropLast (by simpa using h.2)
    · rw [if_neg hup] at h
      rw [push, if_neg hskip, if_neg hup, push, if_neg hskip, if_neg hup, List.cons_append]
      exact ih (acc ++ [comp]) (by simpa using h)

/-- The components meet `x` at the root and stay below it to the end; `after` are those that
come then. -/
def Enters (x : String) (comps after : List String) : Prop :=
  ∃ before, comps = before ++ x :: after ∧ depth 0 before = 0 ∧ Stays 0 after

variable {x : String} {comps after : List String}

theorem Enters.clean_eq (h : Enters x comps after) (hx : Plain x) :
    clean comps = x :: clean after := by
  obtain ⟨before, rfl, hdepth, hstays⟩ := h
  have hbefore : before.foldl push [] = [] :=
    List.length_eq_zero_iff.mp ((length_foldl_push before []).trans hdepth)
  rw [clean, List.foldl_append, hbefore, List.foldl_cons, push_plain hx]
  exact foldl_push_below x after [] hstays

/-- **The cleaned path is below `x` exactly when its components enter `x`.** -/
theorem head_clean_iff (hx : Plain x) (comps : List String) :
    (clean comps).head? = some x ↔ ∃ after, Enters x comps after := by
  refine ⟨?_, fun ⟨after, h⟩ => by rw [h.clean_eq hx]; rfl⟩
  induction comps using List.reverseRecOn with
  | nil => exact fun h => (nomatch h)
  | append_singleton comps comp ih =>
    have hsnoc : clean (comps ++ [comp]) = push (clean comps) comp := by
      simp [clean, List.foldl_append]
    rw [hsnoc]
    intro h
    -- a component that is met further down the walk
    have hfurther : ∀ after, Enters x comps after → (comp = ".." → 0 < depth 0 after) →
        ∃ after, Enters x (comps ++ [comp]) after := by
      rintro after ⟨before, rfl, hdepth, hstays⟩ hup
      exact ⟨after ++ [comp], before, by simp, hdepth, (stays_snoc after comp 0).mpr ⟨hstays, hup⟩⟩
    by_cases hskip : comp = "" ∨ comp = "."
    · rw [push, if_pos hskip] at h
      obtain ⟨after, hafter⟩ := ih h
      refine hfurther after hafter fun hup => ?_
      subst hup
      exact absurd hskip (by decide)
    by_cases hup : comp = ".."
    · rw [push, if_neg hskip, if_pos hup] at h
      obtain ⟨after, hafter⟩ := ih (by
        cases hc : clean comps with
        | nil => simp [hc] at h
        | cons y ys => cases ys <;> simp_all)
      refine hfurther after hafter fun _ => ?_
      have hclean := hafter.clean_eq hx
      have hlen := length_clean after
      cases hc : clean after with
      | nil => simp [hclean, hc] at h
      | cons y ys => simp [← hlen, hc]
    · rw [push, if_neg hskip, if_neg hup] at h
      cases hc : clean comps with
      | nil =>
        rw [hc] at h
        simp only [List.nil_append, List.head?_cons, Option.some.injEq] at h
        subst h
        exact ⟨[], comps, rfl, by rw [← length_clean, hc]; rfl, trivial⟩
      | cons y ys =>
        obtain ⟨after, hafter⟩ := ih (by simpa [hc] using h)
        exact hfurther after hafter fun h => absurd h hup

/-- For rooted paths `path.Clean` is the cleaning of rooted paths. -/
theorem foldl_pushRel_rooted (comps : List String) :
    ∀ acc : Path, IsClean acc → comps.foldl (pushRel true) acc = comps.foldl push acc := by
  induction comps with
  | nil => exact fun acc _ => rfl
  | cons comp rest ih =>
    intro acc hacc
    have hpush : pushRel true acc comp = push acc comp := by
      unfold pushRel push
      split
      · rfl
      · split
        · by_cases hnil : acc = []
          · simp [hnil]
          · have hlast : acc.getLast? ≠ some ".." := fun hl =>
              (hacc ".." (List.mem_of_getLast? hl)).2.2 rfl
            simp [hnil, hlast]
        · rfl
    rw [List.foldl_cons, List.foldl_cons, hpush]
    exact ih _ (push_isClean hacc comp)

theorem cleanPath_rooted {s : String} (h : isAbs s = true) :
    cleanPath s = "/" ++ slashed (clean (components s)) := by
  rw [cleanPath, h, foldl_pushRel_rooted _ [] fun _ hc => (nomatch hc)]
  rfl

/-! ## Components and characters -/

@[simp] theorem slashed_nil : (slashed []).toList = [] := by simp [slashed]

@[simp] theorem slashed_single (comp : String) : (slashed [comp]).toList = comp.toList := by
  simp [slashed]

@[simp] theorem slashed_cons_cons (a b : String) (rest : List String) :
    (slashed (a :: b :: rest)).toList = a.toList ++ '/' :: (slashed (b :: rest)).toList := by
  simp [slashed]

theorem mem_slashed_of_mem {comps : List String} {comp : String} {c : Char} (hcomp : comp ∈ comps)
    (hc : c ∈ comp.toList) : c ∈ (slashed comps).toList := by
  induction comps with
  | nil => exact (nomatch hcomp)
  | cons a rest ih =>
    cases rest with
    | nil =>
      obtain rfl := List.mem_singleton.mp hcomp
      simpa using hc
    | cons b rest =>
      rw [slashed_cons_cons, List.mem_append, List.mem_cons]
      rcases List.mem_cons.mp hcomp with rfl | hrest
      · exact .inl hc
      · exact .inr (.inr (ih hrest))

theorem mem_slashed {comps : List String} {c : Char} (h : c ∈ (slashed comps).toList) :
    c = '/' ∨ ∃ comp ∈ comps, c ∈ comp.toList := by
  induction comps with
  | nil => simp at h
  | cons a rest ih =>
    cases rest with
    | nil => exact .inr ⟨a, List.mem_cons_self, by simpa using h⟩
    | cons b rest =>
      rw [slashed_cons_cons, List.mem_append, List.mem_cons] at h
      rcases h with ha | rfl | hrest
      · exact .inr ⟨a, List.mem_cons_self, ha⟩
      · exact .inl rfl
      · exact (ih hrest).imp_right fun ⟨comp, hcomp, hc⟩ =>
          ⟨comp, List.mem_cons_of_mem _ hcomp, hc⟩

/-- Components that are names put together end in the last character of a name. -/
theorem getLast_slashed {comps : List String} (hne : comps ≠ [])
    (h : ∀ comp ∈ comps, comp ≠ "" ∧ '/' ∉ comp.toList) :
    ∃ c, (slashed comps).toList.getLast? = some c ∧ c ≠ '/' := by
  induction comps with
  | nil => exact absurd rfl hne
  | cons a rest ih =>
    cases rest with
    | nil =>
      obtain ⟨hempty, hslash⟩ := h a List.mem_cons_self
      have hlist : a.toList ≠ [] := by simpa using hempty
      rw [slashed_single, List.getLast?_eq_getLast_of_ne_nil hlist]
      exact ⟨_, rfl, fun hl => hslash (hl ▸ List.getLast_mem hlist)⟩
    | cons b rest =>
      obtain ⟨c, hlast, hc⟩ := ih (List.cons_ne_nil b rest) fun comp hcomp =>
        h comp (List.mem_cons_of_mem _ hcomp)
      refine ⟨c, ?_, hc⟩
      have hbrest : (slashed (b :: rest)).toList ≠ [] := by
        intro hnil
        simp [hnil] at hlast
      rw [slashed_cons_cons, List.getLast?_append_cons, List.getLast?_cons_of_ne_nil hbrest, hlast]

/-- The characters of a component are of the path. -/
theorem mem_of_mem_component {s comp : String} (hcomp : comp ∈ components s) {c : Char}
    (hc : c ∈ comp.toList) : c ∈ s.toList := by
  have h := mem_slashed_of_mem hcomp hc
  rwa [slashed_components] at h

/-- Cleaning leaves components of the path. -/
theorem mem_clean {comps : List String} {comp : String} (h : comp ∈ clean comps) :
    comp ∈ comps := by
  have hfold : ∀ (comps : List String) (acc : Path),
      comp ∈ comps.foldl push acc → comp ∈ acc ∨ comp ∈ comps := by
    intro comps
    induction comps with
    | nil => exact fun acc h => .inl h
    | cons a rest ih =>
      intro acc hmem
      rcases ih _ hmem with hpush | hrest
      · unfold push at hpush
        split at hpush
        · exact .inl hpush
        · split at hpush
          · exact .inl (List.dropLast_subset acc hpush)
          · rcases List.mem_append.mp hpush with hacc | hlast
            · exact .inl hacc
            · exact .inr (List.mem_singleton.mp hlast ▸ List.mem_cons_self)
      · exact .inr (List.mem_cons_of_mem _ hrest)
  exact (hfold comps [] h).resolve_left (fun hn => (nomatch hn))

end Path

end Lib
