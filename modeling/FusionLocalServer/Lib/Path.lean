import Mathlib.Data.List.Infix

/-!
# Rooted paths and recursive removal

A rooted path is the list of its components below the file-system root, outermost
first. `clean` is the lexical cleaning of a rooted path (`filepath.Clean`): empty
components and `.` vanish, `..` drops the component before it, and at the root it
drops nothing. `join` is `filepath.Join` for a rooted first argument: the element is
split at its slashes, appended, and the whole is cleaned.

A disk is the map from paths to file contents. `removeAll` is a recursive removal: it
takes away the path and everything below it, except the entries the operating system
refuses to give up (`stuck`), so a removal that stops half way is one of its cases.
-/

namespace Lib

/-- A rooted path: the components below the root, outermost first. -/
abbrev Path := List String

namespace Path

/-- One step of lexical cleaning: what a component does to the path cleaned so far. -/
def push (acc : Path) (comp : String) : Path :=
  if comp = "" ∨ comp = "." then acc
  else if comp = ".." then acc.dropLast
  else acc ++ [comp]

/-- `filepath.Clean` of a rooted path. -/
def clean (p : Path) : Path := p.foldl push []

/-- The components of one path element, split at its slashes. -/
def components (elem : String) : List String :=
  (elem.toList.splitOn '/').map String.ofList

/-- `filepath.Join` of a rooted directory and one element. -/
def join (dir : Path) (elem : String) : Path := clean (dir ++ components elem)

/-- A component that cleaning keeps as it is. -/
def Plain (comp : String) : Prop := comp ≠ "" ∧ comp ≠ "." ∧ comp ≠ ".."

/-- A path that is its own cleaning: every component is plain. -/
def IsClean (p : Path) : Prop := ∀ comp ∈ p, Plain comp

instance (comp : String) : Decidable (Plain comp) :=
  inferInstanceAs (Decidable (_ ∧ _ ∧ _))

instance (p : Path) : Decidable (IsClean p) :=
  inferInstanceAs (Decidable (∀ comp ∈ p, Plain comp))

/-- `p` is a direct child of `dir`. -/
def StrictChild (dir p : Path) : Prop := ∃ comp, p = dir ++ [comp]

theorem push_plain {acc : Path} {comp : String} (h : Plain comp) :
    push acc comp = acc ++ [comp] := by
  obtain ⟨hne, hdot, hdd⟩ := h
  rw [push, if_neg (by simp [hne, hdot]), if_neg hdd]

theorem foldl_push_of_isClean :
    ∀ (p : Path) (acc : Path), IsClean p → p.foldl push acc = acc ++ p
  | [], acc, _ => by simp
  | comp :: rest, acc, h => by
    have hcomp : Plain comp := h comp List.mem_cons_self
    have hrest : IsClean rest := fun c hc => h c (List.mem_cons_of_mem _ hc)
    rw [List.foldl_cons, push_plain hcomp, foldl_push_of_isClean rest _ hrest,
      List.append_assoc]
    rfl

theorem push_isClean {acc : Path} (h : IsClean acc) (comp : String) : IsClean (push acc comp) := by
  unfold push
  split
  · exact h
  · next hkept =>
    split
    · exact fun c hc => h c (List.dropLast_subset acc hc)
    · next hdd =>
      push Not at hkept
      intro c hc
      rcases List.mem_append.mp hc with hacc | hlast
      · exact h c hacc
      · rw [List.mem_singleton.mp hlast]
        exact ⟨hkept.1, hkept.2, hdd⟩

theorem clean_isClean (p : Path) : IsClean (clean p) := by
  have hfold : ∀ (p : Path) (acc : Path), IsClean acc → IsClean (p.foldl push acc) := by
    intro p
    induction p with
    | nil => exact fun acc h => h
    | cons comp rest ih => exact fun acc h => ih _ (push_isClean h comp)
  exact hfold p [] fun c hc => (nomatch hc)

/-- A slash-free element is its own single component. -/
theorem components_of_no_slash {elem : String} (h : '/' ∉ elem.toList) :
    components elem = [elem] := by
  have hsplit : elem.toList.splitOn '/' = [elem.toList] :=
    List.splitOnP_eq_singleton fun c hc => by
      by_contra hcon
      have hslash : c = '/' := by simpa using hcon
      exact h (hslash ▸ hc)
  rw [components, hsplit]
  simp

/-- Joining a slash-free element to a clean directory is one `push`. -/
theorem join_of_no_slash {dir : Path} {elem : String} (hdir : IsClean dir)
    (h : '/' ∉ elem.toList) : join dir elem = push dir elem := by
  rw [join, clean, components_of_no_slash h, List.foldl_append,
    foldl_push_of_isClean dir [] hdir]
  rfl

/-- A plain slash-free element names a direct child of the directory. -/
theorem join_plain {dir : Path} {elem : String} (hdir : IsClean dir)
    (h : '/' ∉ elem.toList) (hplain : Plain elem) : join dir elem = dir ++ [elem] := by
  rw [join_of_no_slash hdir h, push_plain hplain]

theorem join_isClean {dir : Path} {elem : String} (hdir : IsClean dir)
    (h : '/' ∉ elem.toList) (hplain : Plain elem) : IsClean (join dir elem) := by
  rw [join_plain hdir h hplain]
  intro comp hcomp
  rcases List.mem_append.mp hcomp with hd | he
  · exact hdir comp hd
  · rw [List.mem_singleton.mp he]
    exact hplain

/-- `.` joins to the directory itself. -/
theorem join_dot {dir : Path} (hdir : IsClean dir) : join dir "." = dir := by
  rw [join_of_no_slash hdir (by decide)]
  rfl

/-- `..` joins to the parent directory. -/
theorem join_dotdot {dir : Path} (hdir : IsClean dir) : join dir ".." = dir.dropLast := by
  rw [join_of_no_slash hdir (by decide)]
  rfl

/-- Two different children of one directory have no path in common below them. -/
theorem not_prefix_of_sibling {dir q : Path} {a b : String} (hab : a ≠ b)
    (ha : dir ++ [a] <+: q) : ¬ dir ++ [b] <+: q := by
  intro hb
  have heq : dir ++ [a] = dir ++ [b] := by
    rw [List.prefix_iff_eq_take.mp ha, List.prefix_iff_eq_take.mp hb]
    simp
  exact hab (by simpa using heq)

/-- What lies below a child lies below the directory. -/
theorem prefix_of_child {dir q : Path} {a : String} (h : dir ++ [a] <+: q) : dir <+: q :=
  (List.prefix_append dir [a]).trans h

end Path

/-- The files of a disk: what each path holds. -/
abbrev Disk := Path → Option String

namespace Disk

/-- Recursive removal of `p`. `stuck` marks the entries the operating system refuses to
remove; a removal that succeeds has none below `p`. -/
def removeAll (disk : Disk) (stuck : Path → Bool) (p : Path) : Disk :=
  fun q => if p.isPrefixOf q && !stuck q then none else disk q

/-- A removal touches nothing that does not lie below the removed path. -/
theorem removeAll_outside {disk : Disk} {stuck : Path → Bool} {p q : Path}
    (h : ¬ p <+: q) : disk.removeAll stuck p q = disk q := by
  have hfalse : p.isPrefixOf q = false := by
    rw [Bool.eq_false_iff]
    exact fun hpre => h (List.isPrefixOf_iff_prefix.mp hpre)
  simp [removeAll, hfalse]

/-- What a removal changed lay below the removed path. -/
theorem prefix_of_removeAll_ne {disk : Disk} {stuck : Path → Bool} {p q : Path}
    (h : disk.removeAll stuck p q ≠ disk q) : p <+: q := by
  by_contra hpre
  exact h (removeAll_outside hpre)

/-- A removal nothing resists leaves nothing below the removed path. -/
theorem removeAll_below {disk : Disk} {p q : Path} (h : p <+: q) :
    disk.removeAll (fun _ => false) p q = none := by
  have htrue : p.isPrefixOf q = true := List.isPrefixOf_iff_prefix.mpr h
  simp [removeAll, htrue]

end Disk

end Lib
