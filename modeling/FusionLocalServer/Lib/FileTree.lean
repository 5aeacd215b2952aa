import Mathlib.Data.List.Dedup
import Mathlib.Data.List.Infix
import Mathlib.Data.List.Lex
import Mathlib.Data.List.Sort
import Mathlib.Data.String.Basic
import FusionLocalServer.Lib.Path

/-!
# Files in directories

A file tree says of each rooted path whether it is a directory, a file and with which
content, or nothing. What exists lies in a directory, all the way up to the root; only
finitely many paths exist, so a directory can be listed.

The operations are those of a file system: making a directory with the ones above it,
replacing a file, removing whatever lies at or below a path. Each either does what it says
or, where something else is in the way, nothing.
-/

namespace Lib

/-- What exists at a path. -/
inductive Entry (α : Type) where
  | dir
  | file (data : α)
  deriving DecidableEq, Repr

/-- The files and directories of a disk. `paths` names at least those that exist. -/
structure FileTree (α : Type) where
  get : Path → Option (Entry α)
  paths : List Path
  root : get [] = some .dir
  closed : ∀ p comp, get (p ++ [comp]) ≠ none → get p = some .dir
  listed : ∀ p, get p ≠ none → p ∈ paths

namespace FileTree

variable {α : Type} {t t' : FileTree α} {p q : Path}

/-- Nothing but the root. -/
def empty : FileTree α where
  get p := if p = [] then some .dir else none
  paths := [[]]
  root := rfl
  closed p comp h := by simp at h
  listed p h := by
    by_cases hp : p = []
    · rw [hp]
      exact List.mem_cons_self
    · exact absurd (if_neg hp) h

/-- `os.ReadFile` -/
def readFile (t : FileTree α) (p : Path) : Option α :=
  match t.get p with
  | some (.file data) => some data
  | _ => none

def isDir (t : FileTree α) (p : Path) : Bool :=
  match t.get p with
  | some .dir => true
  | _ => false

theorem isDir_iff : t.isDir p = true ↔ t.get p = some .dir := by
  unfold isDir
  split
  · next h => exact ⟨fun _ => h, fun _ => rfl⟩
  · next h => exact ⟨fun hf => (nomatch hf), fun hd => absurd hd h⟩

theorem readFile_iff {data : α} : t.readFile p = some data ↔ t.get p = some (.file data) := by
  unfold readFile
  split
  · next h => rw [h, Option.some.injEq, Option.some.injEq, Entry.file.injEq]
  · next h => exact ⟨fun hf => (nomatch hf), fun hd => absurd hd (h data)⟩

/-- Everything above what exists is a directory. -/
theorem dir_of_isPrefix (h : t.get q ≠ none) (hpre : p <+: q) (hne : p ≠ q) :
    t.get p = some .dir := by
  induction q using List.reverseRecOn with
  | nil => exact absurd (List.prefix_nil.mp hpre) hne
  | append_singleton q comp ih =>
    have hdir := t.closed q comp h
    rcases List.prefix_concat_iff.mp hpre with heq | hpre
    · exact absurd heq hne
    · by_cases hpq : p = q
      · rw [hpq]
        exact hdir
      · exact ih (by rw [hdir]; exact Option.some_ne_none _) hpre hpq

/-- Nothing lies below a path that is no directory. -/
theorem get_below (h : t.get p ≠ some .dir) (hpre : p <+: q) (hne : p ≠ q) : t.get q = none := by
  by_contra hq
  exact h (dir_of_isPrefix hq hpre hne)

/-! ## Making directories -/

/-- Whether a file stands where a directory is to be. -/
def blocked (t : FileTree α) (p : Path) : Bool :=
  p.inits.any fun q => (t.readFile q).isSome

/-- The tree after `os.MkdirAll`, when nothing is in the way. -/
def addDirs (t : FileTree α) (p : Path) (h : t.blocked p = false) : FileTree α where
  get q := if q <+: p ∧ t.get q = none then some .dir else t.get q
  paths := p.inits ++ t.paths
  root := by
    rw [if_neg (by rw [t.root]; simp)]
    exact t.root
  closed q comp hq := by
    by_cases hnone : t.get q = none
    · -- its directory is a new one
      have hpre : q <+: p := by
        by_contra hpre
        have hpre' : ¬ q ++ [comp] <+: p := fun hc => hpre ((List.prefix_append q _).trans hc)
        rw [if_neg fun hc => hpre' hc.1] at hq
        have := t.closed q comp hq
        rw [hnone] at this
        cases this
      exact if_pos ⟨hpre, hnone⟩
    · rw [if_neg fun hc => hnone hc.2]
      by_cases hold : t.get (q ++ [comp]) = none
      · have hpre : q ++ [comp] <+: p := by
          by_contra hpre
          rw [if_neg fun hc => hpre hc.1] at hq
          exact hq hold
        have hfile : (t.readFile q).isSome = false :=
          List.any_eq_false.mp h q
            ((List.mem_inits _ _).mpr ((List.prefix_append q _).trans hpre)) |> Bool.eq_false_iff.mpr
        unfold readFile at hfile
        split at hfile
        · cases hfile
        · next hnot =>
          cases hget : t.get q with
          | none => exact absurd hget hnone
          | some entry => cases entry with
            | dir => rfl
            | file data => exact absurd hget (hnot data)
      · exact t.closed q comp hold
  listed q hq := by
    by_cases hnew : q <+: p ∧ t.get q = none
    · exact List.mem_append_left _ ((List.mem_inits _ _).mpr hnew.1)
    · rw [if_neg hnew] at hq
      exact List.mem_append_right _ (t.listed q hq)

/-- `os.MkdirAll` -/
def mkdirAll (t : FileTree α) (p : Path) : Option (FileTree α) :=
  if h : t.blocked p = false then some (t.addDirs p h) else none

theorem get_mkdirAll (h : t.mkdirAll p = some t') (q : Path) :
    t'.get q = if q <+: p ∧ t.get q = none then some .dir else t.get q := by
  unfold mkdirAll at h
  split at h
  · cases h
    rfl
  · cases h

/-- A new directory, and nothing else that was there before, changes. -/
theorem get_mkdirAll_of_not_isPrefix (h : t.mkdirAll p = some t') (hq : ¬ q <+: p) :
    t'.get q = t.get q := by
  rw [get_mkdirAll h, if_neg fun hc => hq hc.1]

/-- What exists stays as it is. -/
theorem get_mkdirAll_of_some {entry : Entry α} (h : t.mkdirAll p = some t')
    (hq : t.get q = some entry) : t'.get q = some entry := by
  rw [get_mkdirAll h, if_neg (by rw [hq]; simp), hq]

theorem mkdirAll_eq_some :
    (∃ t', t.mkdirAll p = some t') ↔ ∀ q, q <+: p → t.readFile q = none := by
  unfold mkdirAll blocked
  constructor
  · rintro ⟨t', h⟩ q hq
    split at h
    · next hfree =>
      have := List.any_eq_false.mp hfree q ((List.mem_inits _ _).mpr hq)
      simpa using this
    · cases h
  · intro h
    have hfree : (p.inits.any fun q => (t.readFile q).isSome) = false := by
      rw [List.any_eq_false]
      intro q hq
      rw [h q ((List.mem_inits _ _).mp hq)]
      exact Bool.false_ne_true
    exact ⟨_, dif_pos hfree⟩

theorem get_mkdirAll_self (h : t.mkdirAll p = some t') : t'.get p = some .dir := by
  have hfile := mkdirAll_eq_some.mp ⟨t', h⟩ p (List.prefix_refl p)
  rw [get_mkdirAll h]
  cases hget : t.get p with
  | none => exact if_pos ⟨List.prefix_refl p, rfl⟩
  | some entry => cases entry with
    | dir => rw [if_neg (by simp)]
    | file data =>
      rw [readFile_iff.mpr hget] at hfile
      cases hfile

/-! ## Writing a file -/

/-- The tree after a file is replaced, or made in a directory. -/
def setFile (t : FileTree α) (p : Path) (data : α) (hdir : t.get p.dropLast = some .dir)
    (hself : t.get p ≠ some .dir) : FileTree α where
  get q := if q = p then some (.file data) else t.get q
  paths := p :: t.paths
  root := by
    have hne : [] ≠ p := fun heq => hself (heq ▸ t.root)
    rw [if_neg hne]
    exact t.root
  closed q comp hq := by
    by_cases hp : q ++ [comp] = p
    · have hlast : p.dropLast = q := by rw [← hp, List.dropLast_concat]
      have hne : q ≠ p := by
        intro heq
        rw [heq] at hp
        exact absurd (congrArg List.length hp) (by simp)
      rw [if_neg hne, ← hlast]
      exact hdir
    · rw [if_neg hp] at hq
      have hold := t.closed q comp hq
      have hne : q ≠ p := fun heq => hself (heq ▸ hold)
      rw [if_neg hne]
      exact hold
  listed q hq := by
    by_cases hp : q = p
    · exact hp ▸ List.mem_cons_self
    · rw [if_neg hp] at hq
      exact List.mem_cons_of_mem _ (t.listed q hq)

/-- A file created or replaced at once; its directory must exist, and none may stand in its
place. -/
def writeFile (t : FileTree α) (p : Path) (data : α) : Option (FileTree α) :=
  if hdir : t.isDir p.dropLast = true then
    if hself : t.isDir p = true then none
    else some (t.setFile p data (isDir_iff.mp hdir) fun h => hself (isDir_iff.mpr h))
  else none

theorem get_writeFile {data : α} (h : t.writeFile p data = some t') (q : Path) :
    t'.get q = if q = p then some (.file data) else t.get q := by
  unfold writeFile at h
  split at h
  · split at h
    · cases h
    · cases h
      rfl
  · cases h

theorem writeFile_eq_some {data : α} :
    (∃ t', t.writeFile p data = some t') ↔
      t.get p.dropLast = some .dir ∧ t.get p ≠ some .dir := by
  unfold writeFile
  constructor
  · rintro ⟨t', h⟩
    split at h
    · next hdir =>
      split at h
      · cases h
      · next hself => exact ⟨isDir_iff.mp hdir, fun hc => hself (isDir_iff.mpr hc)⟩
    · cases h
  · rintro ⟨hdir, hself⟩
    rw [dif_pos (isDir_iff.mpr hdir), dif_neg fun hc => hself (isDir_iff.mp hc)]
    exact ⟨_, rfl⟩

/-! ## Removing -/

/-- `os.RemoveAll`; the root itself stays. -/
def removeAll (t : FileTree α) (p : Path) : FileTree α where
  get q := if p <+: q ∧ q ≠ [] then none else t.get q
  paths := t.paths
  root := by
    rw [if_neg fun hc => hc.2 rfl]
    exact t.root
  closed q comp hq := by
    have hnot : ¬ p <+: q ++ [comp] := by
      intro hpre
      rw [if_pos ⟨hpre, by simp⟩] at hq
      exact hq rfl
    rw [if_neg fun hc => hnot hc.1] at hq
    rw [if_neg fun hc => hnot (hc.1.trans (List.prefix_append q _))]
    exact t.closed q comp hq
  listed q hq := by
    by_cases hpre : p <+: q ∧ q ≠ []
    · rw [if_pos hpre] at hq
      exact absurd rfl hq
    · rw [if_neg hpre] at hq
      exact t.listed q hq

theorem get_removeAll (t : FileTree α) (p q : Path) :
    (t.removeAll p).get q = if p <+: q ∧ q ≠ [] then none else t.get q := rfl

theorem get_removeAll_of_not_isPrefix (h : ¬ p <+: q) : (t.removeAll p).get q = t.get q :=
  if_neg fun hc => h hc.1

/-! ## Listing -/

/-- `os.ReadDir`: the names in a directory, in order. -/
def children (t : FileTree α) (p : Path) : List String :=
  ((t.paths.filter fun q => q ≠ [] ∧ q.dropLast = p ∧ t.get q ≠ none).filterMap
    List.getLast?).dedup.insertionSort (· ≤ ·)

theorem mem_children {comp : String} :
    comp ∈ t.children p ↔ t.get (p ++ [comp]) ≠ none := by
  unfold children
  rw [List.mem_insertionSort, List.mem_dedup, List.mem_filterMap]
  constructor
  · rintro ⟨q, hq, hlast⟩
    obtain ⟨-, hq⟩ := List.mem_filter.mp hq
    obtain ⟨hne, hdrop, hget⟩ := of_decide_eq_true hq
    have hsplit : q = p ++ [comp] := by
      rw [← hdrop]
      exact (List.dropLast_append_getLast? comp hlast).symm
    rw [← hsplit]
    exact hget
  · intro h
    refine ⟨p ++ [comp], List.mem_filter.mpr ⟨t.listed _ h, decide_eq_true ?_⟩, by simp⟩
    exact ⟨by simp, List.dropLast_concat, h⟩

theorem nodup_children (t : FileTree α) (p : Path) : (t.children p).Nodup :=
  (List.perm_insertionSort _ _).nodup_iff.mpr (List.nodup_dedup _)

/-- What lies below a directory, in the order a recursive listing comes upon it. -/
def below (t : FileTree α) (p : Path) : List Path :=
  (t.paths.filter fun q => p <+: q ∧ q ≠ p ∧ t.get q ≠ none).dedup.insertionSort
    fun a b => ¬ b < a

theorem mem_below : q ∈ t.below p ↔ p <+: q ∧ q ≠ p ∧ t.get q ≠ none := by
  unfold below
  rw [List.mem_insertionSort, List.mem_dedup, List.mem_filter]
  constructor
  · rintro ⟨-, hq⟩
    exact of_decide_eq_true hq
  · intro h
    exact ⟨t.listed q h.2.2, decide_eq_true h⟩

theorem nodup_below (t : FileTree α) (p : Path) : (t.below p).Nodup :=
  (List.perm_insertionSort _ _).nodup_iff.mpr (List.nodup_dedup _)

theorem lt_of_isPrefix (h : p <+: q) (hne : p ≠ q) : p < q := by
  induction p generalizing q with
  | nil =>
    cases q with
    | nil => exact absurd rfl hne
    | cons comp q => exact List.nil_lt_cons comp q
  | cons comp p ih =>
    obtain ⟨rest, rfl⟩ := h
    refine List.cons_lt_cons_iff.mpr (.inr ⟨rfl, ih (List.prefix_append p rest) ?_⟩)
    exact fun heq => hne (congrArg (comp :: ·) heq)

/-- A directory is listed before what is below it. -/
theorem mem_of_below_eq {r : Path} {pre post : List Path} (h : t.below r = pre ++ q :: post)
    (hp : p ∈ t.below r) (hpre : p <+: q) (hne : p ≠ q) : p ∈ pre := by
  have htotal : Std.Total fun a b : Path => ¬ b < a := ⟨fun a b => by
    rw [not_lt, not_lt]
    exact le_total a b⟩
  have htrans : IsTrans Path fun a b : Path => ¬ b < a := ⟨fun a b c hab hbc => by
    rw [not_lt] at *
    exact le_trans hab hbc⟩
  have hsorted : (t.below r).Pairwise fun a b => ¬ b < a := List.pairwise_insertionSort _ _
  rw [h] at hsorted hp
  rcases List.mem_append.mp hp with hp | hp
  · exact hp
  · rcases List.mem_cons.mp hp with rfl | hp
    · exact absurd rfl hne
    · have hlate := (List.pairwise_cons.mp (List.pairwise_append.mp hsorted).2.1).1 p hp
      exact absurd (lt_of_isPrefix hpre hne) hlate

/-! ## What changes -/

/-- Only what lies at or below a path changes, but for directories made above it. -/
def ChangesBelow (p : Path) (t t' : FileTree α) : Prop :=
  ∀ q, ¬ p <+: q → t'.get q = t.get q ∨ q <+: p ∧ t.get q = none ∧ t'.get q = some .dir

namespace ChangesBelow

variable {t'' : FileTree α}

theorem refl : ChangesBelow p t t := fun _ _ => .inl rfl

theorem trans (h : ChangesBelow p t t') (h' : ChangesBelow p t' t'') : ChangesBelow p t t'' := by
  intro q hq
  rcases h' q hq with heq | ⟨hpre, hnone, hdir⟩
  · rw [heq]
    exact h q hq
  · rcases h q hq with heq | ⟨-, -, hdir'⟩
    · exact .inr ⟨hpre, heq ▸ hnone, hdir⟩
    · rw [hnone] at hdir'
      cases hdir'

/-- What exists outside stays. -/
theorem get_of_some (h : ChangesBelow p t t') (hq : ¬ p <+: q) {entry : Entry α}
    (hentry : t.get q = some entry) : t'.get q = some entry := by
  rcases h q hq with heq | ⟨-, hnone, -⟩
  · rw [heq, hentry]
  · rw [hnone] at hentry
    cases hentry

/-- What neither lies below nor above stays, whatever it is. -/
theorem get_eq (h : ChangesBelow p t t') (hq : ¬ p <+: q) (hq' : ¬ q <+: p) :
    t'.get q = t.get q := by
  rcases h q hq with heq | ⟨hpre, -⟩
  · exact heq
  · exact absurd hpre hq'

/-- No file outside comes or goes. -/
theorem readFile_eq (h : ChangesBelow p t t') (hq : ¬ p <+: q) :
    t'.readFile q = t.readFile q := by
  unfold readFile
  rcases h q hq with heq | ⟨-, hnone, hdir⟩
  · rw [heq]
  · rw [hnone, hdir]

/-- What changes below a path changes below any path above it. -/
theorem weaken {r : Path} (h : ChangesBelow p t t') (hr : r <+: p) : ChangesBelow r t t' := by
  intro q hq
  rcases h q (fun hc => hq (hr.trans hc)) with heq | ⟨hpre, hnone, hdir⟩
  · exact .inl heq
  · rcases List.prefix_or_prefix_of_prefix hpre hr with hqr | hrq
    · exact .inr ⟨hqr, hnone, hdir⟩
    · exact absurd hrq hq

end ChangesBelow

theorem changesBelow_mkdirAll (h : t.mkdirAll q = some t') (hp : p <+: q) :
    ChangesBelow p t t' := by
  intro r hr
  rw [get_mkdirAll h]
  by_cases hnew : r <+: q ∧ t.get r = none
  · rw [if_pos hnew]
    rcases List.prefix_or_prefix_of_prefix hnew.1 hp with hrp | hpr
    · exact .inr ⟨hrp, hnew.2, rfl⟩
    · exact absurd hpr hr
  · rw [if_neg hnew]
    exact .inl rfl

theorem changesBelow_writeFile {data : α} (h : t.writeFile q data = some t') (hp : p <+: q) :
    ChangesBelow p t t' := by
  intro r hr
  have hne : r ≠ q := by
    rintro rfl
    exact hr hp
  rw [get_writeFile h, if_neg hne]
  exact .inl rfl

theorem changesBelow_removeAll (t : FileTree α) (p : Path) : ChangesBelow p t (t.removeAll p) :=
  fun _ hr => .inl (get_removeAll_of_not_isPrefix hr)

end FileTree

end Lib
