import Mathlib.Data.List.Perm.Subperm
import FusionLocalServer.Backup.Snapshot

/-!
# The tiers

How a tier is listed, what a copy into a new directory makes of it, and what pruning takes
away. A copy that nothing stops makes of a new directory what the directory copied is; the
recursive listing names a directory before what is in it, so nothing is in the way.
-/

namespace FusionLocalServer.Backup

open Lib

variable {e : Engine} {faults : Faults} {disk disk' : FileTree Bytes} {dir src dst p q : Path}
  {sources : List Source} {kind : Kind} {now : Time} {name : String}

/-! ## Listing -/

/-- The directory of a snapshot of a tier. -/
def snapshotDir (dir : Path) (kind : Kind) (name : String) : Path := dir ++ [kind.text, name]

theorem snapshotDir_injective {kind' : Kind} {name' : String}
    (h : snapshotDir dir kind name = snapshotDir dir kind' name') : kind = kind' ∧ name = name' := by
  have htail := List.append_cancel_left h
  obtain ⟨hkind, hname⟩ := List.cons.inj htail
  exact ⟨Kind.text_injective hkind, (List.cons.inj hname).1⟩

/-- Two snapshot directories have nothing in common. -/
theorem snapshotDir_not_isPrefix {kind' : Kind} {name' : String} {rest : Path}
    (h : snapshotDir dir kind name ≠ snapshotDir dir kind' name') :
    ¬ snapshotDir dir kind name <+: snapshotDir dir kind' name' ++ rest := by
  intro hpre
  refine h (List.IsPrefix.eq_of_length ?_ ?_)
  · refine List.prefix_of_prefix_length_le hpre (List.prefix_append _ rest) ?_
    rw [snapshotDir, snapshotDir, List.length_append, List.length_append]
    rfl
  · rw [snapshotDir, snapshotDir, List.length_append, List.length_append]
    rfl

theorem snapshotDir_not_isPrefix_self {kind' : Kind} {name' : String}
    (h : snapshotDir dir kind name ≠ snapshotDir dir kind' name') :
    ¬ snapshotDir dir kind name <+: snapshotDir dir kind' name' := by
  have hnot : ¬ snapshotDir dir kind name <+: snapshotDir dir kind' name' ++ [] :=
    snapshotDir_not_isPrefix h
  rwa [List.append_nil] at hnot

/-- What happens to one snapshot leaves another where it is. -/
theorem get_snapshotDir_of_changes {kind' : Kind} {name' : String}
    (hchanges : FileTree.ChangesBelow (snapshotDir dir kind name) disk disk')
    (h : snapshotDir dir kind name ≠ snapshotDir dir kind' name') :
    disk'.get (snapshotDir dir kind' name') = disk.get (snapshotDir dir kind' name') :=
  hchanges.get_eq (snapshotDir_not_isPrefix_self h) (snapshotDir_not_isPrefix_self h.symm)

/-- **A tier is listed newest first**, and holds whatever is a directory with a time for its
name. -/
theorem tierSnapshots_spec (h : disk.readFile (dir ++ [kind.text]) = none) :
    ∃ names, tierSnapshots disk dir kind = .ok names ∧ names.Pairwise (· > ·) ∧
      ∀ name, name ∈ names ↔
        disk.get (snapshotDir dir kind name) = some .dir ∧ (parseTS name).isSome := by
  have hsnap : ∀ name, dir ++ [kind.text] ++ [name] = snapshotDir dir kind name := fun name =>
    List.append_assoc ..
  refine ⟨_, by rw [tierSnapshots, if_neg (by rw [h]; exact Bool.false_ne_true)], ?_, ?_⟩
  · have hdistinct : ∀ a b : String, a ≥ b → a ≠ b → a > b := fun a b hge hne =>
      lt_of_le_of_ne hge (Ne.symm hne)
    refine List.Pairwise.imp₂ hdistinct (List.pairwise_insertionSort (· ≥ ·) _) ?_
    exact (List.perm_insertionSort _ _).nodup_iff.mpr ((disk.nodup_children _).filter _)
  · intro name
    rw [List.mem_insertionSort, List.mem_filter, Bool.and_eq_true, FileTree.isDir_iff,
      FileTree.mem_children, hsnap]
    constructor
    · exact fun h => h.2
    · intro h
      refine ⟨?_, h⟩
      rw [h.1]
      exact Option.some_ne_none _

/-- The listing of a tier is known by its members. -/
theorem tierSnapshots_eq {names : List String} (h : disk.readFile (dir ++ [kind.text]) = none)
    (hsorted : names.Pairwise (· > ·))
    (hmem : ∀ name, name ∈ names ↔
      disk.get (snapshotDir dir kind name) = some .dir ∧ (parseTS name).isSome) :
    tierSnapshots disk dir kind = .ok names := by
  obtain ⟨names', hnames, hsorted', hmem'⟩ := tierSnapshots_spec h
  have hsame : names' = names := List.Pairwise.eq_of_mem_iff hsorted' hsorted fun name =>
    (hmem' name).trans (hmem name).symm
  rw [hnames, hsame]

/-- A tier is listed as before when none of its directories changes. -/
theorem tierSnapshots_congr (h : disk.readFile (dir ++ [kind.text]) = none)
    (h' : disk'.readFile (dir ++ [kind.text]) = none)
    (hget : ∀ name, disk'.get (snapshotDir dir kind name) = disk.get (snapshotDir dir kind name)) :
    tierSnapshots disk' dir kind = tierSnapshots disk dir kind := by
  obtain ⟨names, hnames, hsorted, hmem⟩ := tierSnapshots_spec h
  rw [hnames]
  refine tierSnapshots_eq h' hsorted fun name => ?_
  rw [hget]
  exact hmem name

/-! ## Copying -/

theorem append_ne_self {r : Path} (hr : r ≠ []) : p ++ r ≠ p := fun heq =>
  hr (List.append_cancel_left (heq.trans (List.append_nil p).symm))

theorem copyEntry_changes (disk : FileTree Bytes) (h : copyEntry src dst disk q = some disk') :
    FileTree.ChangesBelow dst disk disk' := by
  unfold copyEntry at h
  dsimp only at h
  split at h
  · exact FileTree.changesBelow_mkdirAll h (List.prefix_append ..)
  · exact FileTree.changesBelow_writeFile h (List.prefix_append ..)
  · cases h

variable (src dst) in
theorem copyEntries_changes (qs : List Path) :
    ∀ disk : FileTree Bytes, FileTree.ChangesBelow dst disk (copyEntries src dst qs disk).1 := by
  induction qs with
  | nil => exact fun _ => .refl
  | cons q qs ih =>
    intro disk
    rw [copyEntries]
    split
    · exact .refl
    · next hcopy => exact (copyEntry_changes disk hcopy).trans (ih _)

theorem tearEntry_changes (disk : FileTree Bytes) (q : Path) (n : Nat) :
    FileTree.ChangesBelow dst disk (tearEntry src dst disk q n) := by
  unfold tearEntry
  split
  · exact .refl
  · next data _ =>
    cases hwritten : disk.writeFile (dst ++ q.drop src.length) (data.take n) with
    | none => exact .refl
    | some _ => exact FileTree.changesBelow_writeFile hwritten (List.prefix_append ..)

variable (src dst) in
/-- However a copy ends, only its destination changes. -/
theorem copyDir_changes (stop : Option CopyStop) (disk : FileTree Bytes) :
    FileTree.ChangesBelow dst disk (copyDir stop src dst disk).1 := by
  unfold copyDir
  dsimp only
  split
  · split
    · exact .refl
    · next hmade =>
      exact (FileTree.changesBelow_mkdirAll hmade (List.prefix_refl dst)).trans
        (copyEntries_changes src dst _ _)
  · exact .refl
  · next n torn =>
    split
    · exact .refl
    · next made hmade =>
      have hbelow := FileTree.changesBelow_mkdirAll hmade (List.prefix_refl dst)
      have hcopied := copyEntries_changes src dst ((disk.below src).take n) made
      split
      · next hrest =>
        rw [hrest] at hcopied
        exact hbelow.trans hcopied
      · next hrest =>
        rw [hrest] at hcopied
        split
        · exact (hbelow.trans hcopied).trans (tearEntry_changes _ _ _)
        · exact hbelow.trans hcopied

variable (src dst) in
theorem copyEntries_keepsDirs (qs : List Path) :
    ∀ disk : FileTree Bytes, KeepsDirs disk (copyEntries src dst qs disk).1 := by
  induction qs with
  | nil => exact fun _ _ h => h
  | cons q qs ih =>
    intro disk
    rw [copyEntries]
    split
    · exact fun _ h => h
    · next copied hcopy =>
      have hkeep : KeepsDirs disk copied := by
        unfold copyEntry at hcopy
        dsimp only at hcopy
        split at hcopy
        · exact keepsDirs_mkdirAll hcopy
        · exact keepsDirs_writeFile hcopy
        · cases hcopy
      exact fun p hp => ih copied p (hkeep p hp)

/-- A copy that ends well was not stopped, and its destination is there. -/
theorem copyDir_true {stop : Option CopyStop} (h : copyDir stop src dst disk = (disk', true)) :
    stop = none ∧ disk'.get dst = some .dir := by
  unfold copyDir at h
  dsimp only at h
  split at h
  · split at h
    · cases h
    · next hmade =>
      have hkeep := copyEntries_keepsDirs src dst (disk.below src) _ _
        (FileTree.get_mkdirAll_self hmade)
      rw [h] at hkeep
      exact ⟨rfl, hkeep⟩
  · cases h
  · split at h
    · cases h
    · split at h
      · cases h
      · split at h <;> cases h

/-- An entry is copied to where nothing is yet but its directory. -/
theorem copyEntry_fresh {r : Path} {entry : Entry Bytes} (hsrc : disk.get (src ++ r) = some entry)
    (hr : r ≠ []) (hparent : disk.get (dst ++ r.dropLast) = some .dir)
    (hfresh : disk.get (dst ++ r) = none) :
    ∃ disk', copyEntry src dst disk (src ++ r) = some disk' ∧
      ∀ q, disk'.get q = if q = dst ++ r then some entry else disk.get q := by
  have hdrop : (src ++ r).drop src.length = r := List.drop_left
  have hlast : (dst ++ r).dropLast = dst ++ r.dropLast := List.dropLast_append_of_ne_nil hr
  have habove : ∀ p, p <+: dst ++ r → p ≠ dst ++ r → disk.get p = some .dir := by
    intro p hp hne
    have hpre : p <+: dst ++ r.dropLast := by
      rw [← List.dropLast_append_getLast hr, ← List.append_assoc] at hp
      rcases List.prefix_concat_iff.mp hp with heq | hpre
      · rw [List.append_assoc, List.dropLast_append_getLast hr] at heq
        exact absurd heq hne
      · exact hpre
    by_cases heq : p = dst ++ r.dropLast
    · rw [heq]
      exact hparent
    · exact FileTree.dir_of_isPrefix (by rw [hparent]; exact Option.some_ne_none _) hpre heq
  unfold copyEntry
  rw [hsrc, hdrop]
  cases entry with
  | dir =>
    obtain ⟨disk', hmade⟩ := (FileTree.mkdirAll_eq_some (t := disk) (p := dst ++ r)).mpr (by
      intro p hp
      unfold FileTree.readFile
      by_cases heq : p = dst ++ r
      · rw [heq, hfresh]
      · rw [habove p hp heq])
    refine ⟨disk', hmade, fun q => ?_⟩
    rw [FileTree.get_mkdirAll hmade]
    by_cases heq : q = dst ++ r
    · rw [if_pos heq, if_pos ⟨heq ▸ List.prefix_refl q, heq ▸ hfresh⟩]
    · have hold : ¬ (q <+: dst ++ r ∧ disk.get q = none) := by
        rintro ⟨hpre, hnone⟩
        rw [habove q hpre heq] at hnone
        cases hnone
      rw [if_neg heq, if_neg hold]
  | file data =>
    obtain ⟨disk', hwritten⟩ := (FileTree.writeFile_eq_some (t := disk) (p := dst ++ r)).mpr (by
        rw [hlast, hfresh]
        exact ⟨hparent, fun hc => (nomatch hc)⟩)
    exact ⟨disk', hwritten, FileTree.get_writeFile hwritten⟩

/-- How far a copy has come: the entries done are there, the others are not. -/
structure Copied (src dst : Path) (start : FileTree Bytes) (done : List Path)
    (disk : FileTree Bytes) : Prop where
  source : ∀ q, src <+: q → disk.get q = start.get q
  dir : disk.get dst = some .dir
  entries : ∀ r, r ≠ [] →
    disk.get (dst ++ r) = if src ++ r ∈ done then start.get (src ++ r) else none

theorem copyEntries_fresh {start : FileTree Bytes} (hapart : ∀ q, src <+: q → ¬ dst <+: q)
    (post : List Path) :
    ∀ pre disk, start.below src = pre ++ post → Copied src dst start pre disk →
      ∃ disk', copyEntries src dst post disk = (disk', true) ∧
        Copied src dst start (start.below src) disk' := by
  induction post with
  | nil =>
    intro pre disk hsplit hcopied
    rw [List.append_nil] at hsplit
    exact ⟨disk, rfl, hsplit ▸ hcopied⟩
  | cons q post ih =>
    intro pre disk hsplit hcopied
    have hq : q ∈ start.below src := by
      rw [hsplit]
      exact List.mem_append_right _ List.mem_cons_self
    obtain ⟨⟨r, rfl⟩, hne, hget⟩ := FileTree.mem_below.mp hq
    have hr : r ≠ [] := fun hnil => hne (by rw [hnil, List.append_nil])
    have hnew : src ++ r ∉ pre := by
      have hnodup := start.nodup_below src
      rw [hsplit] at hnodup
      exact fun hmem => (List.nodup_append.mp hnodup).2.2 _ hmem _ List.mem_cons_self rfl
    obtain ⟨entry, hentry⟩ := Option.ne_none_iff_exists'.mp hget
    have hread : disk.get (src ++ r) = some entry := by
      rw [hcopied.source _ (List.prefix_append src r), hentry]
    have hfresh : disk.get (dst ++ r) = none := by rw [hcopied.entries r hr, if_neg hnew]
    -- the directory it is in came before it
    have hparent : disk.get (dst ++ r.dropLast) = some .dir := by
      by_cases hnil : r.dropLast = []
      · rw [hnil, List.append_nil]
        exact hcopied.dir
      · have hlast : src ++ r = (src ++ r.dropLast) ++ [r.getLast hr] := by
          rw [List.append_assoc, List.dropLast_append_getLast]
        have hdir : start.get (src ++ r.dropLast) = some .dir :=
          start.closed _ (r.getLast hr) (hlast ▸ hget)
        have hmem : src ++ r.dropLast ∈ start.below src := by
          refine FileTree.mem_below.mpr ⟨List.prefix_append .., ?_, ?_⟩
          · exact append_ne_self hnil
          · rw [hdir]
            exact Option.some_ne_none _
        have hbefore : src ++ r.dropLast ∈ pre := by
          refine FileTree.mem_of_below_eq hsplit hmem (hlast ▸ List.prefix_append ..) ?_
          intro heq
          rw [hlast] at heq
          exact absurd (congrArg List.length heq) (by simp)
        rw [hcopied.entries _ hnil, if_pos hbefore, hdir]
    obtain ⟨disk', hcopy, hget'⟩ := copyEntry_fresh hread hr hparent hfresh
    have hnext : Copied src dst start (pre ++ [src ++ r]) disk' := by
      refine ⟨fun p hp => ?_, ?_, fun r' hr' => ?_⟩
      · have hne : p ≠ dst ++ r := by
          rintro rfl
          exact hapart _ hp (List.prefix_append dst r)
        rw [hget', if_neg hne, hcopied.source p hp]
      · rw [hget', if_neg (append_ne_self hr).symm, hcopied.dir]
      · rw [hget']
        by_cases heq : r' = r
        · rw [heq, if_pos rfl, if_pos (List.mem_append_right _ List.mem_cons_self), hentry]
        · have hdst : dst ++ r' ≠ dst ++ r := fun hc => heq (List.append_cancel_left hc)
          have hsrc : src ++ r' ≠ src ++ r := fun hc => heq (List.append_cancel_left hc)
          rw [if_neg hdst, hcopied.entries r' hr']
          simp only [List.mem_append, List.mem_singleton, hsrc, or_false]
    obtain ⟨final, hrest, hdone⟩ := ih (pre ++ [src ++ r]) disk' (by rw [hsplit, List.append_assoc]; rfl)
      hnext
    refine ⟨final, ?_, hdone⟩
    rw [copyEntries, hcopy]
    exact hrest

/-- **A copy that nothing stops makes of a new directory what the one copied is.** -/
theorem copyDir_fresh (hapart : ∀ q, src <+: q → ¬ dst <+: q)
    (hsrc : disk.get src = some .dir) (hfresh : disk.get dst = none)
    (hfree : ∀ q, q <+: dst → disk.readFile q = none) :
    ∃ disk', copyDir none src dst disk = (disk', true) ∧
      (∀ r, disk'.get (dst ++ r) = disk.get (src ++ r)) ∧
      FileTree.ChangesBelow dst disk disk' := by
  obtain ⟨made, hmade⟩ := FileTree.mkdirAll_eq_some.mpr hfree
  have hchanges := FileTree.changesBelow_mkdirAll hmade (List.prefix_refl dst)
  have hnone : ∀ r, disk.get (dst ++ r) = none := by
    intro r
    by_cases hr : r = []
    · rw [hr, List.append_nil]
      exact hfresh
    · refine FileTree.get_below ?_ (List.prefix_append dst r) ?_
      · rw [hfresh]
        exact fun hc => (nomatch hc)
      · exact (append_ne_self hr).symm
  have hsource : ∀ q, src <+: q → made.get q = disk.get q := by
    intro q hq
    rcases hchanges q (hapart q hq) with heq | ⟨hpre, -, -⟩
    · exact heq
    · exact absurd (List.prefix_refl dst) (hapart dst (hq.trans hpre))
  have hstart : Copied src dst disk [] made := by
    refine ⟨hsource, FileTree.get_mkdirAll_self hmade, fun r hr => ?_⟩
    rw [if_neg List.not_mem_nil, FileTree.get_mkdirAll hmade, if_neg ?_, hnone]
    rintro ⟨hpre, -⟩
    have hlen := hpre.length_le
    rw [List.length_append] at hlen
    exact hr (List.length_eq_zero_iff.mp (by omega))
  obtain ⟨disk', hcopy, hdone⟩ := copyEntries_fresh hapart (disk.below src) [] made rfl hstart
  have hrun : copyDir none src dst disk = (disk', true) := by
    unfold copyDir
    dsimp only
    rw [hmade]
    exact hcopy
  refine ⟨disk', hrun, fun r => ?_, ?_⟩
  · by_cases hr : r = []
    · rw [hr, List.append_nil, List.append_nil, hdone.dir, hsrc]
    · rw [hdone.entries r hr]
      by_cases hmem : src ++ r ∈ disk.below src
      · rw [if_pos hmem]
      · rw [if_neg hmem]
        by_contra hne
        exact hmem (FileTree.mem_below.mpr
          ⟨List.prefix_append .., append_ne_self hr, fun hc => hne hc.symm⟩)
  · have hbelow := copyDir_changes src dst none disk
    rw [hrun] at hbelow
    exact hbelow

/-! ## Names -/

theorem suffixed_injective {base : String} {i j : Nat} (h : suffixed base i = suffixed base j) :
    i = j := by
  have hlist : ∀ n, (suffixed base (n + 1)).toList =
      base.toList ++ '-' :: Nat.toDigits 10 (n + 2) := by
    intro n
    rw [suffixed, String.toList_append, String.toList_append, List.append_assoc]
    simp only [String.toList_ofList]
    rfl
  have hlonger : ∀ n, suffixed base (n + 1) ≠ base := by
    intro n heq
    have hlen := congrArg List.length ((hlist n).symm.trans (congrArg String.toList heq))
    rw [List.length_append, List.length_cons] at hlen
    omega
  cases i with
  | zero =>
    cases j with
    | zero => rfl
    | succ j => exact absurd h.symm (hlonger j)
  | succ i =>
    cases j with
    | zero => exact absurd h (hlonger i)
    | succ j =>
      have htext := (hlist i).symm.trans ((congrArg String.toList h).trans (hlist j))
      have hdigits := (List.cons.inj (List.append_cancel_left htext)).2
      have hread := congrArg parseDigits hdigits
      rw [parseDigits_toDigits, parseDigits_toDigits] at hread
      have := Option.some.inj hread
      omega

/-- **A run gets a directory of its own.** -/
theorem newSnapshotDir_spec (disk : FileTree Bytes) (dir : Path) (kind : Kind) (now : Time) :
    ∃ i, newSnapshotDir disk dir kind now = snapshotDir dir kind (suffixed (formatTS now) i) ∧
      disk.get (newSnapshotDir disk dir kind now) = none := by
  have hsnap : ∀ name, dir ++ [kind.text] ++ [name] = snapshotDir dir kind name := fun name =>
    List.append_assoc ..
  unfold newSnapshotDir
  dsimp only
  cases hfind : ((List.range (disk.paths.length + 1)).map (suffixed (formatTS now))).find?
      fun name => disk.get (dir ++ [kind.text] ++ [name]) = none with
  | some name =>
    obtain ⟨i, -, rfl⟩ := List.mem_map.mp (List.mem_of_find?_eq_some hfind)
    have hfree := List.find?_some hfind
    exact ⟨i, hsnap _, of_decide_eq_true hfree⟩
  | none =>
    -- more names are taken than there are paths
    exfalso
    have htaken := List.find?_eq_none.mp hfind
    have hsub : (List.range (disk.paths.length + 1)).map (fun i =>
        snapshotDir dir kind (suffixed (formatTS now) i)) ⊆ disk.paths := by
      intro q hq
      obtain ⟨i, hi, rfl⟩ := List.mem_map.mp hq
      have hsome := htaken _ (List.mem_map.mpr ⟨i, hi, rfl⟩)
      rw [decide_eq_true_eq, hsnap] at hsome
      exact disk.listed _ hsome
    have hnodup : ((List.range (disk.paths.length + 1)).map fun i =>
        snapshotDir dir kind (suffixed (formatTS now) i)).Nodup := by
      refine List.Nodup.map ?_ List.nodup_range
      exact fun i j h => suffixed_injective (snapshotDir_injective h).2
    have hlen := (hnodup.subperm hsub).length_le
    rw [List.length_map, List.length_range] at hlen
    omega

/-- When the time of a run is free, it is the name. -/
theorem newSnapshotDir_of_free (h : disk.get (snapshotDir dir kind (formatTS now)) = none) :
    newSnapshotDir disk dir kind now = snapshotDir dir kind (formatTS now) := by
  have hsnap : dir ++ [kind.text] ++ [formatTS now] = snapshotDir dir kind (formatTS now) :=
    List.append_assoc ..
  unfold newSnapshotDir
  dsimp only
  rw [List.range_succ_eq_map, List.map_cons, List.find?_cons_of_pos
    (by rw [suffixed, hsnap, h]; rfl), Option.getD_some]
  exact hsnap

/-- The four-digit years. -/
def InYears (s : Int) : Prop := 0 ≤ s ∧ s < endOfStamps

instance (s : Int) : Decidable (InYears s) := inferInstanceAs (Decidable (_ ∧ _))

/-- A name begins with the stamp of its time. -/
theorem take_suffixed (h : InYears (secondOf now)) (i : Nat) :
    (suffixed (formatTS now) i).toList.take stampLength = formatStamp (secondOf now) := by
  have hlen := length_formatStamp h.1 h.2
  cases i with
  | zero =>
    rw [suffixed, formatTS, String.toList_ofList, List.take_of_length_le (Nat.le_of_eq hlen)]
  | succ i =>
    rw [suffixed, String.toList_append, String.toList_append, formatTS, String.toList_ofList,
      List.append_assoc, List.take_left' hlen]

theorem parseTS_suffixed (h : InYears (secondOf now)) (i : Nat) :
    parseTS (suffixed (formatTS now) i) = some (secondOf now) := by
  rw [parseTS, take_suffixed h, parseStamp_formatStamp h.1 h.2]

theorem parseTS_formatTS (h : InYears (secondOf now)) : parseTS (formatTS now) = some (secondOf now) :=
  parseTS_suffixed h 0

/-- A name is one component of a path. -/
theorem plain_suffixed (now : Time) (i : Nat) : Path.Plain (suffixed (formatTS now) i) := by
  have hdash : '-' ∈ (formatTS now).toList := by
    rw [formatTS, String.toList_ofList, formatStamp]
    simp
  have hmem : '-' ∈ (suffixed (formatTS now) i).toList := by
    cases i with
    | zero => exact hdash
    | succ i =>
      rw [suffixed, String.toList_append, String.toList_append]
      exact List.mem_append_left _ (List.mem_append_left _ hdash)
  refine ⟨?_, ?_, ?_⟩ <;> intro heq <;> rw [heq] at hmem <;> exact absurd hmem (by decide)

theorem snapshotDir_clean (hdir : Path.IsClean dir) (kind : Kind) (now : Time) (i : Nat) :
    Path.IsClean (snapshotDir dir kind (suffixed (formatTS now) i)) := by
  intro comp hcomp
  rcases List.mem_append.mp hcomp with hcomp | hcomp
  · exact hdir comp hcomp
  · rcases List.mem_cons.mp hcomp with rfl | hcomp
    · exact kind.plain
    · rw [List.mem_singleton.mp hcomp]
      exact plain_suffixed now i

/-- A later time makes a later name. -/
theorem lt_of_parseTS {a b : String} {s s' : Int} (ha : parseTS a = some s) (hb : parseTS b = some s')
    (h : s < s') : a < b := by
  have hlen : (a.toList.take stampLength).length = (b.toList.take stampLength).length := by
    rw [length_of_parseStamp ha, length_of_parseStamp hb]
  have hlt := lt_append hlen (parseStamp_lt ha hb h) (a.toList.drop stampLength)
    (b.toList.drop stampLength)
  rw [List.take_append_drop, List.take_append_drop] at hlt
  exact String.lt_iff.mpr hlt

/-! ## Promoting and pruning -/

/-- A tier into which a snapshot is promoted cannot be listed, has one of the period, or is
where the newest daily snapshot is copied to. -/
theorem promoteTo_cases {newest : String} {same : Int → Bool} {err : Option Err}
    (h : promoteTo faults dir kind newest same disk = (disk', err)) :
    (∃ failure, tierHas disk dir kind same = .error failure ∧ disk' = disk ∧ err = some failure) ∨
    (tierHas disk dir kind same = .ok true ∧ disk' = disk ∧ err = none) ∨
    (tierHas disk dir kind same = .ok false ∧
      ∃ ok, copyDir (faults.copy kind) (snapshotDir dir .daily newest) (snapshotDir dir kind newest)
        disk = (disk', ok) ∧ (err = none ↔ ok = true)) := by
  unfold promoteTo at h
  split at h
  · next failure hhas =>
    cases h
    exact .inl ⟨failure, hhas, rfl, rfl⟩
  · next hhas =>
    cases h
    exact .inr (.inl ⟨hhas, rfl, rfl⟩)
  · next hhas =>
    refine .inr (.inr ⟨hhas, ?_⟩)
    dsimp only at h
    split at h
    · next hcopy =>
      cases h
      exact ⟨false, hcopy, fun hc => (nomatch hc), fun hc => (nomatch hc)⟩
    · next hcopy =>
      cases h
      exact ⟨true, hcopy, fun _ => rfl, fun _ => rfl⟩

/-- Removing directories of a tier removes what is below them. -/
theorem get_foldl_removeAll (names : List String) (q : Path) :
    ∀ disk : FileTree Bytes,
      (names.foldl (fun disk name => disk.removeAll (snapshotDir dir kind name)) disk).get q =
        if ∃ name ∈ names, snapshotDir dir kind name <+: q then none else disk.get q := by
  have hroot : ∀ name, snapshotDir dir kind name <+: q → q ≠ [] := by
    rintro name hpre rfl
    have := List.prefix_nil.mp hpre
    exact absurd this (by simp [snapshotDir])
  induction names with
  | nil =>
    intro disk
    rw [if_neg (by rintro ⟨_, h, -⟩; cases h)]
    rfl
  | cons name names ih =>
    intro disk
    rw [List.foldl_cons, ih, FileTree.get_removeAll]
    by_cases hrest : ∃ name ∈ names, snapshotDir dir kind name <+: q
    · obtain ⟨n, hn, hpre⟩ := hrest
      rw [if_pos ⟨n, hn, hpre⟩, if_pos ⟨n, List.mem_cons_of_mem _ hn, hpre⟩]
    · rw [if_neg hrest]
      by_cases hpre : snapshotDir dir kind name <+: q
      · rw [if_pos ⟨hpre, hroot name hpre⟩, if_pos ⟨name, List.mem_cons_self, hpre⟩]
      · rw [if_neg fun hc => hpre hc.1, if_neg]
        rintro ⟨n, hn, hpre'⟩
        rcases List.mem_cons.mp hn with rfl | hn
        · exact hpre hpre'
        · exact hrest ⟨n, hn, hpre'⟩

/-- **Pruning a tier** takes away what is past its number, and nothing else. -/
theorem pruneTier_spec {keep : Nat} {names : List String}
    (h : tierSnapshots disk dir kind = .ok names) :
    (pruneTier dir kind keep disk).2 = none ∧
      ∀ q, (pruneTier dir kind keep disk).1.get q =
        if ∃ name ∈ names.drop keep, snapshotDir dir kind name <+: q then none else disk.get q := by
  unfold pruneTier
  rw [h]
  exact ⟨rfl, fun q => get_foldl_removeAll _ q disk⟩

end FusionLocalServer.Backup
