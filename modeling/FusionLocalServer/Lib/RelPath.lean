import FusionLocalServer.Lib.Path

/-!
# Slash-separated paths as text

`cleanPath` is `path.Clean`: empty components and `.` vanish, `..` takes away the component
before it, and where there is none it stays at the front of a relative path and vanishes
from a rooted one. Nothing else has a meaning; a backslash is a character of a name.

A relative path whose cleaning neither is `.` nor begins with `..` names a place below
whatever it is joined to.
-/

namespace Lib

namespace Path

/-- Components put together, a slash between two. -/
def slashed (comps : List String) : String :=
  String.ofList (List.intercalate ['/'] (comps.map String.toList))

/-- `path.IsAbs` -/
def isAbs (s : String) : Bool := s.toList.head? = some '/'

/-- What one component does to the path cleaned so far. -/
def pushRel (rooted : Bool) (acc : List String) (comp : String) : List String :=
  if comp = "" ∨ comp = "." then acc
  else if comp = ".." then
    if acc = [] ∨ acc.getLast? = some ".." then (if rooted then acc else acc ++ [".."])
    else acc.dropLast
  else acc ++ [comp]

/-- `path.Clean` -/
def cleanPath (s : String) : String :=
  let comps := (components s).foldl (pushRel (isAbs s)) []
  if isAbs s then "/" ++ slashed comps else if comps = [] then "." else slashed comps

/-- The way from one rooted path to another (`filepath.Rel`): up to where they part, and
down. -/
def relTo : Path → Path → Path
  | a :: root, b :: p => if a = b then relTo root p else ".." :: (root.map fun _ => "..") ++ b :: p
  | root, p => root.map (fun _ => "..") ++ p

/-! ## Components -/

theorem not_mem_of_mem_components {s comp : String} (h : comp ∈ components s) :
    '/' ∉ comp.toList := by
  obtain ⟨cs, hcs, rfl⟩ := List.mem_map.mp h
  rw [String.toList_ofList]
  have hall : ∀ xs : List Char, ∀ cs ∈ xs.splitOn '/', '/' ∉ cs := by
    intro xs
    induction xs with
    | nil =>
      intro cs hcs
      rw [List.splitOn_nil, List.mem_singleton] at hcs
      exact hcs ▸ List.not_mem_nil
    | cons x xs ih =>
      intro cs hcs
      rw [List.splitOn_cons_eq_if_modifyHead] at hcs
      split at hcs
      · rcases List.mem_cons.mp hcs with rfl | hcs
        · exact List.not_mem_nil
        · exact ih cs hcs
      · next hx =>
        cases hsplit : xs.splitOn '/' with
        | nil => exact absurd hsplit (List.splitOn_ne_nil _ _)
        | cons y ys =>
          rw [hsplit] at hcs ih
          rcases List.mem_cons.mp hcs with rfl | hcs
          · intro hmem
            rcases List.mem_cons.mp hmem with rfl | hmem
            · exact hx (beq_self_eq_true _)
            · exact ih y List.mem_cons_self hmem
          · exact ih cs (List.mem_cons_of_mem _ hcs)
  exact hall _ _ hcs

/-- Components put together come apart again. -/
theorem components_slashed {comps : List String} (hne : comps ≠ [])
    (h : ∀ comp ∈ comps, '/' ∉ comp.toList) : components (slashed comps) = comps := by
  have hsplit : (List.intercalate ['/'] (comps.map String.toList)).splitOn '/' =
      comps.map String.toList := by
    refine List.splitOn_intercalate '/' ?_ ?_
    · intro cs hcs
      obtain ⟨comp, hcomp, rfl⟩ := List.mem_map.mp hcs
      exact h comp hcomp
    · intro hnil
      exact hne (List.map_eq_nil_iff.mp hnil)
  rw [components, slashed, String.toList_ofList, hsplit, List.map_map]
  have hid : String.ofList ∘ String.toList = id := funext fun s => String.ofList_toList
  rw [hid, List.map_id]

theorem slashed_components (s : String) : slashed (components s) = s := by
  have hid : String.toList ∘ String.ofList = id := funext fun s => String.toList_ofList
  rw [components, slashed, List.map_map, hid, List.map_id, List.intercalate_splitOn,
    String.ofList_toList]

/-! ## What cleaning leaves -/

/-- Steps up, and then plain components. -/
def Cleaned (acc : List String) : Prop :=
  ∃ n ps, acc = List.replicate n ".." ++ ps ∧ IsClean ps

theorem Cleaned.pushRel {acc : List String} {comp : String} (h : Cleaned acc) (rooted : Bool) :
    Cleaned (pushRel rooted acc comp) := by
  obtain ⟨n, ps, rfl, hps⟩ := h
  unfold Path.pushRel
  split
  · exact ⟨n, ps, rfl, hps⟩
  · next hskip =>
    obtain ⟨hempty, hdot⟩ := not_or.mp hskip
    split
    · rcases List.eq_nil_or_concat ps with rfl | ⟨qs, q, rfl⟩
      · -- there is nothing to take away
        have hup : List.replicate n ".." ++ [] = [] ∨
            (List.replicate n ".." ++ []).getLast? = some ".." := by
          rw [List.append_nil]
          cases n with
          | zero => exact .inl rfl
          | succ n => exact .inr (by rw [List.getLast?_replicate, if_neg (Nat.succ_ne_zero n)])
        rw [if_pos hup]
        split
        · exact ⟨n, [], rfl, hps⟩
        · refine ⟨n + 1, [], ?_, hps⟩
          rw [List.append_nil, List.append_nil, List.replicate_succ']
      · have hq : Plain q := hps q (by simp)
        have hnot : ¬ (List.replicate n ".." ++ (qs ++ [q]) = [] ∨
            (List.replicate n ".." ++ (qs ++ [q])).getLast? = some "..") := by
          rw [← List.append_assoc, List.getLast?_concat]
          rintro (hnil | hlast)
          · exact absurd hnil (by simp)
          · exact hq.2.2 (Option.some.inj hlast)
        rw [List.concat_eq_append, if_neg hnot, ← List.append_assoc, List.dropLast_concat]
        exact ⟨n, qs, rfl, fun c hc => hps c (by simp [hc])⟩
    · next hup =>
      refine ⟨n, ps ++ [comp], List.append_assoc .., ?_⟩
      intro c hc
      rcases List.mem_append.mp hc with hc | hc
      · exact hps c hc
      · rw [List.mem_singleton.mp hc]
        exact ⟨hempty, hdot, hup⟩

/-- Components go in as they are or not at all. -/
theorem mem_pushRel {rooted : Bool} {acc : List String} {comp c : String}
    (h : c ∈ pushRel rooted acc comp) : c ∈ acc ∨ c = comp ∨ c = ".." := by
  unfold pushRel at h
  split at h
  · exact .inl h
  · split at h
    · split at h
      · split at h
        · exact .inl h
        · rcases List.mem_append.mp h with h | h
          · exact .inl h
          · exact .inr (.inr (List.mem_singleton.mp h))
      · exact .inl (List.dropLast_subset _ h)
    · rcases List.mem_append.mp h with h | h
      · exact .inl h
      · exact .inr (.inl (List.mem_singleton.mp h))

theorem foldl_pushRel (rooted : Bool) (comps : List String)
    (hcomps : ∀ comp ∈ comps, '/' ∉ comp.toList) :
    Cleaned (comps.foldl (pushRel rooted) []) ∧
      ∀ comp ∈ comps.foldl (pushRel rooted) [], '/' ∉ comp.toList := by
  have hrun : ∀ acc, Cleaned acc → (∀ comp ∈ acc, '/' ∉ comp.toList) →
      Cleaned (comps.foldl (pushRel rooted) acc) ∧
        ∀ comp ∈ comps.foldl (pushRel rooted) acc, '/' ∉ comp.toList := by
    induction comps with
    | nil => exact fun acc hacc hslash => ⟨hacc, hslash⟩
    | cons comp comps ih =>
      intro acc hacc hslash
      refine ih (fun c hc => hcomps c (List.mem_cons_of_mem _ hc)) _ (hacc.pushRel rooted) ?_
      intro c hc
      rcases mem_pushRel hc with hc | rfl | rfl
      · exact hslash c hc
      · exact hcomps _ List.mem_cons_self
      · decide
  exact hrun [] ⟨0, [], rfl, fun _ h => (nomatch h)⟩ fun _ h => (nomatch h)

/-! ## Paths that stay below -/

/-- The text of a path below whatever it is joined to. -/
structure Below (s : String) (comps : Path) : Prop where
  text : s = slashed comps
  ne : comps ≠ []
  clean : IsClean comps
  no_slash : ∀ comp ∈ comps, '/' ∉ comp.toList

/-- Whether a cleaned path leads out of where it starts, or nowhere. -/
def escapes (clean : String) : Bool :=
  clean = "." ∨ clean = "" ∨ isAbs clean ∨ clean = ".." ∨ "../".toList <+: clean.toList

theorem Below.components_eq {s : String} {comps : Path} (h : Below s comps) :
    components s = comps := by
  rw [h.text, components_slashed h.ne h.no_slash]

/-- Joining goes down the components. -/
theorem Below.join_eq {s : String} {comps dir : Path} (h : Below s comps) (hdir : IsClean dir) :
    join dir s = dir ++ comps := by
  have hall : IsClean (dir ++ comps) := by
    intro c hc
    rcases List.mem_append.mp hc with hc | hc
    · exact hdir c hc
    · exact h.clean c hc
  rw [join, Path.clean, h.components_eq, foldl_push_of_isClean _ _ hall, List.nil_append]

/-- **A cleaned path that does not escape stays below.** -/
theorem below_of_not_escapes {s : String} (h : escapes (cleanPath s) = false) :
    ∃ comps, Below (cleanPath s) comps := by
  have hnot := of_decide_eq_false h
  simp only [not_or] at hnot
  obtain ⟨hdot, hempty, habs, hup, hup'⟩ := hnot
  have hslash : ∀ comp ∈ components s, '/' ∉ comp.toList :=
    fun _ hc => not_mem_of_mem_components hc
  obtain ⟨⟨n, ps, hsplit, hps⟩, hno⟩ := foldl_pushRel (isAbs s) (components s) hslash
  have hrel : isAbs s = false := by
    by_contra hcon
    rw [Bool.not_eq_false] at hcon
    refine habs ?_
    unfold cleanPath
    rw [if_pos hcon, isAbs, String.toList_append]
    rfl
  have htext : cleanPath s = if (components s).foldl (pushRel (isAbs s)) [] = [] then "."
      else slashed ((components s).foldl (pushRel (isAbs s)) []) := by
    unfold cleanPath
    rw [if_neg (by rw [hrel]; exact Bool.false_ne_true)]
  have hne : (components s).foldl (pushRel (isAbs s)) [] ≠ [] := by
    intro hnil
    rw [if_pos hnil] at htext
    exact hdot htext
  rw [if_neg hne] at htext
  cases n with
  | zero =>
    rw [List.replicate_zero, List.nil_append] at hsplit
    exact ⟨_, htext, hne, hsplit ▸ hps, hno⟩
  | succ n =>
    -- it begins with a step up
    exfalso
    rw [htext, hsplit, List.replicate_succ] at hup hup'
    cases hrest : List.replicate n ".." ++ ps with
    | nil =>
      rw [List.cons_append, hrest] at hup
      exact hup rfl
    | cons c cs =>
      rw [List.cons_append, hrest] at hup'
      refine hup' ⟨List.intercalate ['/'] ((c :: cs).map String.toList), ?_⟩
      rw [slashed, String.toList_ofList, String.toList_ofList]
      rfl

/-- A path of plain components is its own cleaning, and does not escape. -/
theorem Below.cleanPath_eq {s : String} {comps : Path} (h : Below s comps) :
    cleanPath s = s ∧ escapes s = false := by
  obtain ⟨c, cs, rfl⟩ := List.exists_cons_of_ne_nil h.ne
  have hc : Plain c := h.clean c List.mem_cons_self
  have hc' := h.no_slash c List.mem_cons_self
  have hlist : s.toList = List.intercalate ['/'] (c.toList :: cs.map String.toList) := by
    rw [h.text, slashed, String.toList_ofList]
    rfl
  have hhead : ∃ rest, s.toList = c.toList ++ rest ∧ (rest = [] ∧ cs = [] ∨
      ∃ rest', rest = '/' :: rest') := by
    cases cs with
    | nil => exact ⟨[], by rw [hlist]; simp [List.intercalate], .inl ⟨rfl, rfl⟩⟩
    | cons c' cs =>
      refine ⟨'/' :: List.intercalate ['/'] ((c' :: cs).map String.toList), ?_, .inr ⟨_, rfl⟩⟩
      rw [hlist]
      rfl
  have habs : isAbs s = false := by
    obtain ⟨rest, hs, -⟩ := hhead
    rw [isAbs, decide_eq_false_iff_not, hs]
    cases hcl : c.toList with
    | nil => exact fun _ => hc.1 (String.toList_inj.mp hcl)
    | cons x xs =>
      rw [hcl] at hc'
      intro heq
      exact hc' (Option.some.inj heq ▸ List.mem_cons_self)
  have hfold : ∀ (acc ps : List String), IsClean ps →
      ps.foldl (pushRel false) acc = acc ++ ps := by
    intro acc ps
    induction ps generalizing acc with
    | nil => exact fun _ => (List.append_nil acc).symm
    | cons p ps ih =>
      intro hps
      have hp : Plain p := hps p List.mem_cons_self
      have hpush : pushRel false acc p = acc ++ [p] := by
        unfold pushRel
        rw [if_neg (by simp [hp.1, hp.2.1]), if_neg hp.2.2]
      rw [List.foldl_cons, hpush, ih _ fun q hq => hps q (List.mem_cons_of_mem _ hq),
        List.append_assoc]
      rfl
  constructor
  · unfold cleanPath
    dsimp only
    rw [habs, h.components_eq, hfold [] _ h.clean, List.nil_append,
      if_neg Bool.false_ne_true, if_neg h.ne, ← h.text]
  · obtain ⟨rest, hs, hrest⟩ := hhead
    -- a text that is a component and at most a slash behind it
    have hone : ∀ d : String, '/' ∉ d.toList → s = d → c = d := by
      rintro d hd rfl
      rcases hrest with ⟨rfl, -⟩ | ⟨rest', rfl⟩
      · rw [List.append_nil] at hs
        exact (String.toList_inj.mp hs).symm
      · rw [hs] at hd
        exact absurd (List.mem_append_right _ List.mem_cons_self) hd
    rw [escapes, decide_eq_false_iff_not]
    rintro (hd | hd | hd | hd | ⟨tail, hd⟩)
    · exact hc.2.1 (hone "." (by decide) hd)
    · exact hc.1 (hone "" (by decide) hd)
    · rw [habs] at hd
      cases hd
    · exact hc.2.2 (hone ".." (by decide) hd)
    · -- the first component would be `..`
      have hparts := components_slashed h.ne h.no_slash
      rw [← h.text, components, ← hd] at hparts
      have hsplit : ("../".toList ++ tail).splitOn '/' = "..".toList :: tail.splitOn '/' :=
        by
        have hdots : '/' ∉ "..".toList := by decide
        exact List.splitOn_append_cons_self_of_not_mem hdots tail
      rw [hsplit, List.map_cons] at hparts
      exact hc.2.2 (List.cons.inj hparts).1.symm

/-! ## The way down -/

theorem relTo_append (root p : Path) : relTo root (root ++ p) = p := by
  induction root with
  | nil =>
    cases p <;> rfl
  | cons a root ih =>
    rw [List.cons_append, relTo, if_pos rfl, ih]

end Path

end Lib
