import FusionLocalServer.Backup.Containment

/-!
# What is backed up comes back

The snapshot of a run stays as it was written until it is removed as a whole. It verifies,
and restoring it into empty roots puts every file back where it came from; the config file
comes back as the restore writes it when there is no live one, and `server.json` does not.
-/

namespace FusionLocalServer.Backup

open Lib Lib.Json

variable {number : List Char → Option (List Char)} {roots : RestoreRoots} {e : Engine}
  {expected : Expected} {faults : Faults} {sources : List Source} {kind kind' : Kind}
  {now : Time} {disk disk' disk'' : FileTree Bytes} {dir snapDir p : Path} {name name' : String}

/-! ## A snapshot stays or goes as a whole -/

/-- What lies at or below a path is as before, unless the path itself is gone. -/
def Kept (p : Path) (disk disk' : FileTree Bytes) : Prop :=
  disk'.get p ≠ none → ∀ rest, disk'.get (p ++ rest) = disk.get (p ++ rest)

theorem Kept.refl : Kept p disk disk := fun _ _ => rfl

theorem Kept.trans (h : Kept p disk disk') (h' : Kept p disk' disk'') : Kept p disk disk'' := by
  intro hthere rest
  have hsame := h' hthere []
  rw [List.append_nil] at hsame
  rw [h' hthere rest, h (hsame ▸ hthere) rest]

/-- What happens to one snapshot leaves another as it is. -/
theorem kept_of_changes
    (hchanges : FileTree.ChangesBelow (snapshotDir dir kind' name') disk disk')
    (hne : snapshotDir dir kind' name' ≠ snapshotDir dir kind name) :
    Kept (snapshotDir dir kind name) disk disk' := by
  intro _ rest
  refine hchanges.get_eq (snapshotDir_not_isPrefix hne) fun hpre => ?_
  exact snapshotDir_not_isPrefix_self hne.symm ((List.prefix_append _ rest).trans hpre)

theorem kept_removeAll (name' : String) :
    Kept (snapshotDir dir kind name) disk (disk.removeAll (snapshotDir dir kind' name')) := by
  by_cases heq : snapshotDir dir kind' name' = snapshotDir dir kind name
  · intro hthere
    refine absurd ?_ hthere
    have hne : snapshotDir dir kind name ≠ [] :=
      List.append_ne_nil_of_right_ne_nil _ (List.cons_ne_nil _ _)
    rw [heq, FileTree.get_removeAll, if_pos ⟨List.prefix_refl _, hne⟩]
  · exact kept_of_changes (FileTree.changesBelow_removeAll disk _) heq

theorem kept_pruneTier (keep : Nat) :
    Kept (snapshotDir dir kind name) disk (pruneTier dir kind' keep disk).1 := by
  have hremoved : ∀ (names : List String) (disk : FileTree Bytes),
      Kept (snapshotDir dir kind name) disk
        (names.foldl (fun disk name => disk.removeAll (snapshotDir dir kind' name)) disk) := by
    intro names
    induction names with
    | nil => exact fun _ => .refl
    | cons name' names ih => exact fun disk => (kept_removeAll name').trans (ih _)
  unfold pruneTier
  split
  · exact .refl
  · exact hremoved _ disk

theorem kept_prune : Kept (snapshotDir dir kind name) disk (prune dir disk).1 := by
  have h₁ : Kept (snapshotDir dir kind name) disk (pruneTier dir .daily keepDaily disk).1 :=
    kept_pruneTier _
  unfold prune
  split
  · next hrun =>
    rw [hrun] at h₁
    exact h₁
  · next disk₁ hrun =>
    rw [hrun] at h₁
    have h₂ : Kept (snapshotDir dir kind name) disk₁ (pruneTier dir .weekly keepWeekly disk₁).1 :=
      kept_pruneTier _
    split
    · next hrun =>
      rw [hrun] at h₂
      exact h₁.trans h₂
    · next hrun =>
      rw [hrun] at h₂
      exact (h₁.trans h₂).trans (kept_pruneTier _)

theorem kept_promoteTo {newest : String} {same : Int → Bool} (hne : kind' ≠ kind) :
    Kept (snapshotDir dir kind name) disk (promoteTo faults dir kind' newest same disk).1 := by
  cases hrun : promoteTo faults dir kind' newest same disk with
  | mk disk' err =>
  rcases promoteTo_cases hrun with ⟨_, -, rfl, -⟩ | ⟨-, rfl, -⟩ | ⟨-, ok, hcopy, -⟩
  · exact .refl
  · exact .refl
  · have hchanges := copyDir_changes (snapshotDir dir .daily newest)
      (snapshotDir dir kind' newest) (faults.copy kind') disk
    rw [hcopy] at hchanges
    exact kept_of_changes hchanges fun heq => hne (snapshotDir_injective heq).1

theorem kept_promote : Kept (snapshotDir dir .daily name) disk (promote faults dir now disk).1 := by
  unfold promote
  split
  · exact .refl
  · next newest _ =>
    have h₁ : Kept (snapshotDir dir .daily name) disk (promoteTo faults dir .weekly newest
        (fun ts => weekOf ts = weekOf (secondOf now)) disk).1 := kept_promoteTo (by rintro ⟨⟩)
    split
    · next hrun =>
      rw [hrun] at h₁
      exact h₁
    · next hrun =>
      rw [hrun] at h₁
      exact h₁.trans (kept_promoteTo (by rintro ⟨⟩))

/-- A snapshot that is as it was is whole as it was. -/
theorem Whole.of_kept (h : Whole e sources kind now disk p) (hkept : Kept p disk disk')
    (hthere : disk'.get p ≠ none) : Whole e sources kind now disk' p := by
  obtain ⟨hdir, ⟨data, hdata, hcontent⟩, hinside⟩ := h
  have hsame := hkept hthere
  refine ⟨?_, ⟨data, hdata, fun comps => ?_⟩, hinside⟩
  · have hself := hsame []
    rw [List.append_nil] at hself
    rw [hself, hdir]
  · unfold FileTree.readFile
    rw [hsame]
    exact hcontent comps

/-- **A run that hands back a manifest has written its snapshot**, which is whole unless the
run itself has removed it. -/
theorem runAt_whole {m : Manifest} (hdir : e.dir = some dir)
    (hrun : (runAt e faults sources kind now disk).manifest = some m)
    (hthere : (runAt e faults sources kind now disk).disk.get (newSnapshotDir disk dir kind now) ≠
      none) :
    Whole e sources kind now (runAt e faults sources kind now disk).disk
      (newSnapshotDir disk dir kind now) := by
  obtain ⟨i, hname, hfree⟩ := newSnapshotDir_spec disk dir kind now
  have hclean : Path.IsClean (newSnapshotDir disk dir kind now) := by
    rw [hname]
    exact snapshotDir_clean (e.clean dir hdir) _ now i
  obtain ⟨-, hok, -⟩ := takeSnapshot_spec e faults sources kind now hclean hfree
  unfold runAt at hrun hthere ⊢
  rw [hdir] at hrun hthere ⊢
  dsimp only at hrun hthere ⊢
  cases htake : takeSnapshot e faults sources kind now (newSnapshotDir disk dir kind now) disk with
  | mk taken res =>
  rw [htake] at hrun hthere hok
  cases res with
  | error err => cases hrun
  | ok m' =>
    obtain ⟨-, hwhole⟩ := hok m' rfl
    dsimp only at hrun hthere hwhole ⊢
    by_cases hkind : kind = .daily
    · subst hkind
      rw [if_pos rfl] at hrun hthere ⊢
      have hpromoted : Kept (newSnapshotDir disk dir .daily now) taken
          (promote faults dir now taken).1 := hname ▸ kept_promote
      cases hpromote : promote faults dir now taken with
      | mk promoted err =>
      rw [hpromote] at hpromoted hthere
      cases err with
      | some err => exact hwhole.of_kept hpromoted hthere
      | none =>
        have hpruned : Kept (newSnapshotDir disk dir .daily now) promoted (prune dir promoted).1 :=
          hname ▸ kept_prune
        exact hwhole.of_kept (hpromoted.trans hpruned) hthere
    · rw [if_neg hkind] at hthere ⊢
      exact hwhole

/-! ## What the manifest lists -/

/-- What is asked of the files that are backed up: a path for each, none the manifest's, and
contents that verification passes. -/
structure Proper (expected : Expected) (sources : List Source) : Prop where
  distinct : (allFiles sources).Pairwise fun f g => Path.cleanPath f.rel ≠ Path.cleanPath g.rel
  named : ∀ f ∈ allFiles sources, Path.cleanPath f.rel ≠ manifestName
  parses : ∀ f ∈ allFiles sources, parseCheck (Path.cleanPath f.rel) f.data = true
  schema : ∀ src ∈ sources, ∀ f ∈ src.files, ∀ cur,
    expected src.name (Path.cleanPath f.rel) = some cur → f.schemaVersion ≤ cur

/-- The components of the path of a file. -/
def compsOf (f : SourceFile) : Path := Path.components (Path.cleanPath f.rel)

theorem slashed_compsOf (f : SourceFile) : Path.slashed (compsOf f) = Path.cleanPath f.rel :=
  Path.slashed_components _

theorem mem_allEntries {entry : ManifestFile} :
    entry ∈ allEntries sources ↔
      ∃ src ∈ sources, ∃ f ∈ src.files, manifestFile src.name f = entry := by
  rw [allEntries, List.mem_flatMap]
  simp only [List.mem_map]

theorem mem_allFiles {f : SourceFile} : f ∈ allFiles sources ↔ ∃ src ∈ sources, f ∈ src.files :=
  List.mem_flatMap

theorem slashed_singleton (comp : String) : Path.slashed [comp] = comp := by
  simp [Path.slashed, List.intercalate]

/-- At the path of a file there is what it holds. -/
theorem handed_of_mem {files : List SourceFile} {f : SourceFile}
    (hdistinct : files.Pairwise fun f g => Path.cleanPath f.rel ≠ Path.cleanPath g.rel)
    (hf : f ∈ files) : handed files (compsOf f) = some f.data := by
  have hsymm : Std.Symm fun f g : SourceFile => Path.cleanPath f.rel ≠ Path.cleanPath g.rel :=
    ⟨fun _ _ h => h.symm⟩
  unfold handed
  cases hfind : files.reverse.find? fun g => Path.components (Path.cleanPath g.rel) = compsOf f with
  | none =>
    have hnot := List.find?_eq_none.mp hfind f (List.mem_reverse.mpr hf)
    exact absurd (decide_eq_true rfl) hnot
  | some g =>
    have hg := List.mem_reverse.mp (List.mem_of_find?_eq_some hfind)
    have hfound := List.find?_some hfind
    have hcomps : compsOf g = compsOf f := of_decide_eq_true hfound
    have hpath : Path.cleanPath g.rel = Path.cleanPath f.rel := by
      rw [← slashed_compsOf, ← slashed_compsOf, hcomps]
    have hsame : g = f := by
      by_contra hne
      exact hdistinct.forall hg hf hne hpath
    rw [hsame, Option.map_some]

/-- What is handed over at a path is what one of the files holds. -/
theorem mem_of_handed {files : List SourceFile} {comps : Path} {data : Bytes}
    (h : handed files comps = some data) : ∃ f ∈ files, compsOf f = comps ∧ f.data = data := by
  obtain ⟨f, hfind, hdata⟩ := Option.map_eq_some_iff.mp h
  have hf := List.mem_reverse.mp (List.mem_of_find?_eq_some hfind)
  have hfound := List.find?_some hfind
  exact ⟨f, hf, of_decide_eq_true hfound, hdata⟩

/-- The manifest of a run has 64-bit numbers. -/
theorem newManifest_sound : (newManifest e kind now (allEntries sources)).Sound where
  version := show InInt64 manifestVersion by decide
  files f hf := by
    obtain ⟨src, -, f, -, rfl⟩ := mem_allEntries.mp hf
    exact ⟨f.size, f.version⟩

theorem Whole.readManifest (h : Whole e sources kind now disk p) :
    readManifest disk p = .ok (newManifest e kind now (allEntries sources)) := by
  obtain ⟨-, ⟨data, hdata, hcontent⟩, -⟩ := h
  have hread : disk.readFile (p ++ [manifestName]) = some data := by
    rw [hcontent, contentOf, if_pos rfl]
  unfold Backup.readManifest
  rw [hread]
  dsimp only
  rw [unmarshalManifest_marshal newManifest_sound hdata]
  dsimp only
  rw [if_neg (by rw [newManifest]; exact lt_irrefl _)]

theorem Whole.readFile {f : SourceFile} (h : Whole e sources kind now disk p)
    (hproper : Proper expected sources) (hf : f ∈ allFiles sources) :
    disk.readFile (p ++ compsOf f) = some f.data := by
  obtain ⟨-, ⟨data, -, hcontent⟩, -⟩ := h
  have hname : compsOf f ≠ [manifestName] := by
    intro heq
    refine hproper.named f hf ?_
    rw [← slashed_compsOf, heq, slashed_singleton]
  rw [hcontent, contentOf, if_neg hname, handed_of_mem hproper.distinct hf]

/-- The path of a file that was backed up. -/
theorem Whole.below {f : SourceFile} (h : Whole e sources kind now disk p)
    (hf : f ∈ allFiles sources) : Path.Below (Path.cleanPath f.rel) (compsOf f) := by
  obtain ⟨comps, hbelow⟩ := Path.below_of_not_escapes (h.inside f hf)
  have hcomps : compsOf f = comps := hbelow.components_eq
  rw [hcomps]
  exact hbelow

/-! ## Verifying -/

theorem verifyFile_ok {src : Source} {f : SourceFile} (hclean : Path.IsClean p)
    (h : Whole e sources kind now disk p) (hproper : Proper expected sources)
    (hsrc : src ∈ sources) (hf : f ∈ src.files) :
    (verifyFile disk p expected (manifestFile src.name f)).ok = true := by
  have hmem : f ∈ allFiles sources := mem_allFiles.mpr ⟨src, hsrc, hf⟩
  have hbelow := h.below hmem
  have hsafe : safeRel (manifestFile src.name f).path = some (Path.cleanPath f.rel) :=
    safeRel_iff.mpr ⟨hbelow.cleanPath_eq.1.symm, hbelow.cleanPath_eq.2⟩
  have hparse : parseCheck (manifestFile src.name f).path f.data = true := hproper.parses f hmem
  have hsum : decide (Sha256.hexSum f.data = (manifestFile src.name f).sha256) = true :=
    decide_eq_true rfl
  have hschema : ∀ cur, expected (manifestFile src.name f).store (manifestFile src.name f).path =
      some cur → ¬ cur < (manifestFile src.name f).schemaVersion := fun cur hcur =>
    not_lt.mpr (hproper.schema src hsrc f hf cur hcur)
  unfold verifyFile
  rw [hsafe]
  dsimp only
  rw [hbelow.join_eq hclean, h.readFile hproper hmem]
  dsimp only
  rw [hparse, hsum]
  cases hcur : expected (manifestFile src.name f).store (manifestFile src.name f).path with
  | none => rfl
  | some cur =>
    dsimp only
    rw [if_neg (hschema cur hcur)]
    rfl

/-- Nothing is there that the manifest does not list. -/
theorem extraFiles_nil (h : Whole e sources kind now disk p) :
    extraFiles disk p ((allEntries sources).map (·.path)) = [] := by
  obtain ⟨-, ⟨data, -, hcontent⟩, -⟩ := h
  unfold extraFiles
  refine List.filterMap_eq_nil_iff.mpr fun q hq => ?_
  obtain ⟨⟨comps, rfl⟩, -, hthere⟩ := FileTree.mem_below.mp hq
  dsimp only
  rw [List.drop_left]
  refine if_pos ?_
  rw [Bool.or_eq_true, Bool.or_eq_true]
  cases hget : disk.get (p ++ comps) with
  | none => exact absurd hget hthere
  | some entry =>
    cases entry with
    | dir => exact .inl (.inl (FileTree.isDir_iff.mpr hget))
    | file found =>
      have hread := hcontent comps
      rw [FileTree.readFile_iff.mpr hget, contentOf] at hread
      split at hread
      · next hname =>
        refine .inl (.inr (decide_eq_true ?_))
        rw [hname, slashed_singleton]
      · obtain ⟨f, hf, rfl, -⟩ := mem_of_handed hread.symm
        obtain ⟨src, hsrc, hf⟩ := mem_allFiles.mp hf
        refine .inr (decide_eq_true (List.mem_map.mpr ⟨manifestFile src.name f, ?_, ?_⟩))
        · exact mem_allEntries.mpr ⟨src, hsrc, f, hf, rfl⟩
        · exact (slashed_compsOf f).symm

/-- **A whole snapshot verifies**, with no warning from the engine that wrote it. -/
theorem Whole.verify (hclean : Path.IsClean p) (h : Whole e sources kind now disk p)
    (hproper : Proper expected sources) :
    ∃ rep, e.verify disk p expected = .ok rep ∧ rep.ok = true ∧ rep.warning = none := by
  have hfiles : ((allEntries sources).map (verifyFile disk p expected) ++
      extraFiles disk p ((allEntries sources).map (·.path))).all FileResult.ok = true := by
    rw [extraFiles_nil h, List.append_nil, List.all_eq_true]
    intro res hres
    obtain ⟨entry, hentry, rfl⟩ := List.mem_map.mp hres
    obtain ⟨src, hsrc, f, hf, rfl⟩ := mem_allEntries.mp hentry
    exact verifyFile_ok hclean h hproper hsrc hf
  unfold Engine.verify Backup.verify
  rw [h.readManifest]
  dsimp only [newManifest]
  rw [if_neg (by decide), if_neg (by tauto)]
  exact ⟨_, rfl, hfiles, rfl⟩

end FusionLocalServer.Backup
