import FusionLocalServer.Backup.RoundTrip

/-!
# Restoring into empty roots

Where nothing is in the way every planned write goes through, and since no file of a snapshot
lies above another, none overwrites another. The backup that a restore takes of the empty
roots does not touch them.
-/

namespace FusionLocalServer.Backup

open Lib Lib.Json

variable {number : List Char → Option (List Char)} {roots : RestoreRoots} {e : Engine}
  {expected : Expected} {faults : Faults} {sources : List Source} {kind : Kind}
  {now : Time} {disk disk' : FileTree Bytes} {dir p : Path} {name : String} {f g : SourceFile}

/-! ## Writes with nothing in the way -/

/-- No file stands above a place that is written, no directory at it, and no such place above
another. -/
structure Clear (plans : List Pending) (disk : FileTree Bytes) : Prop where
  above : ∀ p ∈ plans, ∀ q, q <+: p.dest → q ≠ p.dest → disk.readFile q = none
  here : ∀ p ∈ plans, disk.get p.dest ≠ some .dir
  apart : plans.Pairwise fun p q => ¬ p.dest <+: q.dest ∧ ¬ q.dest <+: p.dest

theorem not_prefix_dropLast {q : Path} (hq : q ≠ []) : ¬ q <+: q.dropLast := by
  intro hpre
  have hlen := hpre.length_le
  have hpos := List.length_pos_of_ne_nil hq
  rw [List.length_dropLast] at hlen
  omega

theorem mkdirAll_eq (hwrite : ∀ q, faults.write q = false) (q : Path) :
    mkdirAll faults disk q = disk.mkdirAll q := by
  rw [mkdirAll, hwrite, if_neg Bool.false_ne_true]

theorem writeFile_eq (hwrite : ∀ q, faults.write q = false) (q : Path) (data : Bytes) :
    writeFile faults disk q data = disk.writeFile q data := by
  rw [writeFile, hwrite, if_neg Bool.false_ne_true]

/-- The first of the writes goes through, and is not in the way of the others. -/
theorem Clear.step {p : Pending} {plans : List Pending} (h : Clear (p :: plans) disk) :
    ∃ made disk', disk.mkdirAll p.dest.dropLast = some made ∧
      made.writeFile p.dest p.data = some disk' ∧ Clear plans disk' := by
  have hroot : p.dest ≠ [] := by
    intro hnil
    refine h.here p List.mem_cons_self ?_
    rw [hnil]
    exact disk.root
  have hnot := not_prefix_dropLast hroot
  obtain ⟨made, hmade⟩ := FileTree.mkdirAll_eq_some.mpr fun q hq =>
    h.above p List.mem_cons_self q (hq.trans (List.dropLast_prefix _)) fun heq => hnot (heq ▸ hq)
  have hself : made.get p.dest ≠ some .dir := by
    rw [FileTree.get_mkdirAll_of_not_isPrefix hmade hnot]
    exact h.here p List.mem_cons_self
  obtain ⟨disk', hwritten⟩ := (FileTree.writeFile_eq_some).mpr
    ⟨FileTree.get_mkdirAll_self hmade, hself⟩
  obtain ⟨hfirst, hrest⟩ := List.pairwise_cons.mp h.apart
  refine ⟨made, disk', hmade, hwritten, ?_, ?_, hrest⟩
  · intro p' hp' q hq hne
    have hother : q ≠ p.dest := by
      rintro rfl
      exact (hfirst p' hp').1 hq
    rw [readFile_writeFile hwritten, if_neg hother, readFile_mkdirAll hmade]
    exact h.above p' (List.mem_cons_of_mem _ hp') q hq hne
  · intro p' hp'
    have hother : p'.dest ≠ p.dest := fun heq => (hfirst p' hp').2 (heq ▸ List.prefix_refl _)
    have hnew : ¬ p'.dest <+: p.dest.dropLast := fun hpre =>
      (hfirst p' hp').2 (hpre.trans (List.dropLast_prefix _))
    rw [FileTree.get_writeFile hwritten, if_neg hother,
      FileTree.get_mkdirAll_of_not_isPrefix hmade hnew]
    exact h.here p' (List.mem_cons_of_mem _ hp')

/-- **With nothing in the way everything is written.** -/
theorem writeAll_ok (hwrite : ∀ q, faults.write q = false) (plans : List Pending) :
    ∀ disk, Clear plans disk → (writeAll faults plans disk).err = none ∧
      ∀ p ∈ plans, (writeAll faults plans disk).disk.readFile p.dest = some p.data := by
  induction plans with
  | nil => exact fun disk _ => ⟨rfl, fun p hp => (nomatch hp)⟩
  | cons p plans ih =>
    intro disk h
    obtain ⟨made, disk', hmade, hwritten, hclear⟩ := h.step
    obtain ⟨herr, hall⟩ := ih disk' hclear
    obtain ⟨hfirst, -⟩ := List.pairwise_cons.mp h.apart
    rw [writeAll, mkdirAll_eq hwrite, hmade]
    dsimp only
    rw [writeFile_eq hwrite, hwritten]
    refine ⟨herr, List.forall_mem_cons.mpr ⟨?_, hall⟩⟩
    have hlater : p.dest ∉ (writeAll faults plans disk').written := by
      intro hmem
      obtain ⟨p', hp', heq⟩ := (writeAll_spec plans disk').1 _ hmem
      exact (hfirst p' hp').1 (heq ▸ List.prefix_refl _)
    show (writeAll faults plans disk').disk.readFile p.dest = some p.data
    rw [(writeAll_spec plans disk').2 _ hlater, readFile_writeFile hwritten, if_pos rfl]

/-! ## Empty roots -/

/-- Nothing lies below the root of the hub, there is no config file, and no file stands where
one of the directories is or is to be. -/
structure RestoreRoots.Empty (roots : RestoreRoots) (disk : FileTree Bytes) : Prop where
  hub : ∀ comps, comps ≠ [] → disk.get (roots.hubRoot ++ comps) = none
  config : disk.get (roots.configDir ++ [configName]) = none
  hubFree : ∀ q, q <+: roots.hubRoot → disk.readFile q = none
  configFree : ∀ q, q <+: roots.configDir → disk.readFile q = none

/-- The config directory does not lie below the root of the hub, nor the root at its config
file, and neither of them where the backups before a restore go. -/
structure RestoreRoots.Apart (roots : RestoreRoots) (dir : Path) : Prop where
  inside : roots.hubRoot <+: roots.configDir → roots.hubRoot = roots.configDir
  file : ¬ roots.configDir ++ [configName] <+: roots.hubRoot
  hub : ¬ dir ++ [Kind.preRestore.text] <+: roots.hubRoot
  config : ¬ dir ++ [Kind.preRestore.text] <+: roots.configDir

theorem snapshotDir_eq_append : snapshotDir dir kind name = (dir ++ [kind.text]) ++ [name] :=
  (List.append_assoc dir [kind.text] [name]).symm

/-- Roots that are empty, with a snapshot in the folder, do not lie above the folder. -/
theorem RestoreRoots.Empty.not_above (h : roots.Empty disk)
    (hthere : disk.get (snapshotDir dir kind name) ≠ none) : ¬ roots.hubRoot <+: dir := by
  rintro ⟨rest, rfl⟩
  refine hthere ?_
  rw [snapshotDir, List.append_assoc]
  exact h.hub _ (by simp)

/-- The place of a new backup is neither above nor below the root of the hub. -/
theorem RestoreRoots.Apart.preRestore_hub (h : roots.Apart dir) (hnot : ¬ roots.hubRoot <+: dir) :
    ¬ snapshotDir dir .preRestore name <+: roots.hubRoot ∧
      ¬ roots.hubRoot <+: snapshotDir dir .preRestore name := by
  rw [snapshotDir_eq_append]
  constructor
  · exact fun hpre => h.hub ((List.prefix_append _ _).trans hpre)
  · intro hpre
    rcases List.prefix_concat_iff.mp hpre with heq | hpre
    · exact h.hub (heq ▸ List.prefix_append _ _)
    · rcases List.prefix_concat_iff.mp hpre with heq | hpre
      · exact h.hub (heq ▸ List.prefix_refl _)
      · exact hnot hpre

/-- It is not above what lies directly in a directory that is not among those backups. -/
theorem preRestore_not_above {root : Path} (h : ¬ dir ++ [Kind.preRestore.text] <+: root)
    (comp : String) : ¬ snapshotDir dir .preRestore name <+: root ++ [comp] := by
  rw [snapshotDir_eq_append]
  intro hpre
  rcases List.prefix_concat_iff.mp hpre with heq | hpre
  · have hdir : dir ++ [Kind.preRestore.text] = root := List.append_inj_left' heq rfl
    exact h (hdir ▸ List.prefix_refl _)
  · exact h ((List.prefix_append _ _).trans hpre)

/-- The backup before a restore changes its own directory. -/
theorem preRestore_changes (hdir : e.dir = some dir) :
    ∃ name, FileTree.ChangesBelow (snapshotDir dir .preRestore name) disk
      (runAt e faults sources .preRestore now disk).disk := by
  obtain ⟨i, hname, -⟩ := newSnapshotDir_spec disk dir .preRestore now
  refine ⟨suffixed (formatTS now) i, ?_⟩
  rw [← hname]
  rcases runAt_preRestore e faults sources now disk with heq | ⟨dir', hdir', hchanges⟩
  · rw [heq]
    exact .refl
  · obtain rfl := Option.some.inj (hdir.symm.trans hdir')
    exact hchanges

/-- **The backup before a restore leaves empty roots empty.** -/
theorem RestoreRoots.Empty.preRestore (h : roots.Empty disk) (hapart : roots.Apart dir)
    (hthere : disk.get (snapshotDir dir kind name) ≠ none) {name' : String}
    (hchanges : FileTree.ChangesBelow (snapshotDir dir .preRestore name') disk disk') :
    roots.Empty disk' := by
  obtain ⟨hbelow, habove⟩ := hapart.preRestore_hub (h.not_above hthere)
  refine ⟨fun comps hcomps => ?_, ?_, fun q hq => ?_, fun q hq => ?_⟩
  · rw [hchanges.get_eq ?_ ?_]
    · exact h.hub comps hcomps
    · intro hpre
      rcases List.prefix_or_prefix_of_prefix hpre (List.prefix_append roots.hubRoot comps) with
        hpre | hpre
      · exact hbelow hpre
      · exact habove hpre
    · exact fun hpre => habove ((List.prefix_append _ _).trans hpre)
  · rcases hchanges _ (preRestore_not_above hapart.config configName) with heq | ⟨hpre, -, -⟩
    · rw [heq]
      exact h.config
    · -- above the backup there is the folder, which is there already, and its tier
      exfalso
      rw [snapshotDir_eq_append] at hpre
      rcases List.prefix_concat_iff.mp hpre with heq | hpre
      · have hdir : roots.configDir = dir ++ [Kind.preRestore.text] := List.append_inj_left' heq rfl
        exact hapart.config (hdir ▸ List.prefix_refl _)
      · rcases List.prefix_concat_iff.mp hpre with heq | hpre
        · have hname := List.append_inj_right' heq rfl
          exact absurd (List.cons.inj hname).1 (by decide)
        · have hdir : disk.get (roots.configDir ++ [configName]) = some .dir := by
            refine FileTree.dir_of_isPrefix hthere (hpre.trans (List.prefix_append ..)) ?_
            intro heq
            have hlen := hpre.length_le
            rw [heq, snapshotDir, List.length_append] at hlen
            exact absurd hlen (by simp)
          rw [h.config] at hdir
          cases hdir
  · rw [hchanges.readFile_eq fun hpre => hbelow (hpre.trans hq)]
    exact h.hubFree q hq
  · rw [hchanges.readFile_eq fun hpre => ?_]
    · exact h.configFree q hq
    · exact preRestore_not_above hapart.config configName ((hpre.trans hq).trans (List.prefix_append _ _))

/-! ## The places of the files -/

/-- Where a file of a snapshot is restored to. -/
def RestoreRoots.place (roots : RestoreRoots) (f : SourceFile) : Path :=
  roots.of (Path.cleanPath f.rel) ++ compsOf f

/-- No file of a snapshot lies above another. -/
theorem Whole.comps_apart (h : Whole e sources kind now disk p) (hproper : Proper expected sources)
    (hf : f ∈ allFiles sources) (hg : g ∈ allFiles sources)
    (hne : Path.cleanPath f.rel ≠ Path.cleanPath g.rel) : ¬ compsOf f <+: compsOf g := by
  intro hpre
  have hcomps : compsOf f ≠ compsOf g := by
    intro heq
    refine hne ?_
    rw [← slashed_compsOf, ← slashed_compsOf, heq]
  have hthere : disk.get (p ++ compsOf g) ≠ none := by
    rw [FileTree.readFile_iff.mp (h.readFile hproper hg)]
    exact Option.some_ne_none _
  have hdir : disk.get (p ++ compsOf f) = some .dir :=
    FileTree.dir_of_isPrefix hthere (List.prefix_append_right_inj p |>.mpr hpre) fun heq =>
      hcomps (List.append_cancel_left heq)
  rw [FileTree.readFile_iff.mp (h.readFile hproper hf)] at hdir
  cases hdir

theorem compsOf_config (h : Path.cleanPath f.rel = configName) : compsOf f = [configName] := by
  rw [compsOf, h]
  exact (below_name (by decide) (by decide)).components_eq

/-- The config file lies above or below the root of the hub only when the roots are one. -/
theorem RestoreRoots.Apart.roots_eq (h : roots.Apart dir) {q : Path} (hhub : roots.hubRoot <+: q)
    (hconfig : roots.configDir ++ [configName] <+: q) : roots.hubRoot = roots.configDir := by
  rcases List.prefix_or_prefix_of_prefix hconfig hhub with hpre | hpre
  · exact absurd hpre h.file
  · rcases List.prefix_concat_iff.mp hpre with heq | hpre
    · exact absurd (heq ▸ List.prefix_refl _) h.file
    · exact h.inside hpre

/-- Nor does the place of one lie above that of another. -/
theorem Whole.place_apart (h : Whole e sources kind now disk p) (hproper : Proper expected sources)
    (hapart : roots.Apart dir) (hf : f ∈ allFiles sources) (hg : g ∈ allFiles sources)
    (hne : Path.cleanPath f.rel ≠ Path.cleanPath g.rel) : ¬ roots.place f <+: roots.place g := by
  have hcomps := h.comps_apart hproper hf hg hne
  have hroot : roots.place f <+: roots.place g →
      roots.of (Path.cleanPath f.rel) = roots.of (Path.cleanPath g.rel) := by
    intro hpre
    unfold RestoreRoots.place at hpre
    unfold RestoreRoots.of at hpre ⊢
    by_cases hcf : Path.cleanPath f.rel = configName
    · by_cases hcg : Path.cleanPath g.rel = configName
      · rw [if_pos hcf, if_pos hcg]
      · rw [if_pos hcf, if_neg hcg, compsOf_config hcf] at hpre
        rw [if_pos hcf, if_neg hcg]
        exact (hapart.roots_eq (List.prefix_append _ _) hpre).symm
    · by_cases hcg : Path.cleanPath g.rel = configName
      · rw [if_neg hcf, if_pos hcg, compsOf_config hcg] at hpre
        rw [if_neg hcf, if_pos hcg]
        exact hapart.roots_eq ((List.prefix_append _ _).trans hpre) (List.prefix_refl _)
      · rw [if_neg hcf, if_neg hcg]
  intro hpre
  have hsame := hroot hpre
  unfold RestoreRoots.place at hpre
  rw [hsame, List.prefix_append_right_inj] at hpre
  exact hcomps hpre

/-- In empty roots nothing is at the place of a file, and no file above it. -/
theorem RestoreRoots.Empty.place (h : roots.Empty disk) (hne : compsOf f ≠ []) :
    disk.get (roots.place f) = none ∧
      ∀ q, q <+: roots.place f → q ≠ roots.place f → disk.readFile q = none := by
  unfold RestoreRoots.place RestoreRoots.of
  split
  · next hconfig =>
    rw [compsOf_config hconfig]
    refine ⟨h.config, fun q hq hneq => ?_⟩
    exact h.configFree q ((List.prefix_concat_iff.mp hq).resolve_left hneq)
  · refine ⟨h.hub _ hne, fun q hq _ => ?_⟩
    rcases List.prefix_or_prefix_of_prefix hq (List.prefix_append roots.hubRoot (compsOf f)) with
      hpre | ⟨rest, rfl⟩
    · exact h.hubFree q hpre
    · by_cases hnil : rest = []
      · refine h.hubFree _ ?_
        rw [hnil, List.append_nil]
      · rw [FileTree.readFile, h.hub rest hnil]

/-! ## The snapshot is accepted -/

theorem newerParts_self (a : List Nat) : newerParts a a = false := by
  induction a with
  | nil => rfl
  | cons n a ih => rw [newerParts, List.headD_cons, if_pos rfl, List.tail_cons, ih]

theorem snapshotNewerThanApp_self (v : String) : snapshotNewerThanApp v v = false := by
  unfold snapshotNewerThanApp
  cases parseVersion v with
  | none => rfl
  | some a => exact newerParts_self a

theorem liveSecret_none : liveSecret number none = none := rfl

/-- Without a live file the config file is merged when it reads as a map. -/
theorem mergeConfigSecret_none {data : Bytes} {raw : Option Fields}
    (h : unmarshalMap number data = some raw) :
    mergeConfigSecret number data none = .ok (marshalMap raw) := by
  unfold mergeConfigSecret
  rw [h, liveSecret_none]

/-- The config file among the files reads as a map. -/
def ConfigReads (number : List Char → Option (List Char)) (sources : List Source) : Prop :=
  ∀ f ∈ allFiles sources, Path.cleanPath f.rel = configName → ∃ raw,
    unmarshalMap number f.data = some raw

/-- **A whole snapshot of proper files is accepted** where there is no live config file. -/
theorem Whole.accepted (hclean : Path.IsClean p) (h : Whole e sources kind now disk p)
    (hproper : Proper expected sources) (hconfig : ConfigReads number sources)
    (hempty : roots.Empty disk) :
    Accepted number roots e expected disk p (newManifest e kind now (allEntries sources)) where
  manifest := h.readManifest
  version := le_refl _
  hubSlug := rfl
  hub := .inr (.inr rfl)
  app := snapshotNewerThanApp_self _
  schema entry hentry := by
    obtain ⟨src, hsrc, f, hf, rfl⟩ := mem_allEntries.mp hentry
    exact hproper.schema src hsrc f hf
  files entry hentry := by
    obtain ⟨src, hsrc, f, hf, rfl⟩ := mem_allEntries.mp hentry
    have hmem : f ∈ allFiles sources := mem_allFiles.mpr ⟨src, hsrc, hf⟩
    have hbelow := h.below hmem
    have hsame : Path.cleanPath (manifestFile src.name f).path = Path.cleanPath f.rel :=
      hbelow.cleanPath_eq.1
    refine ⟨?_, fun _ => ⟨f.data, ?_, rfl, fun hname => ?_⟩⟩
    · rw [hsame]
      exact hbelow.cleanPath_eq.2
    · rw [hsame, hbelow.join_eq hclean]
      exact h.readFile hproper hmem
    · obtain ⟨raw, hraw⟩ := hconfig f hmem (hsame ▸ hname)
      rw [FileTree.readFile, hempty.config]
      exact ⟨_, mergeConfigSecret_none hraw⟩

/-! ## What comes back -/

/-- What is planned for an entry goes to its place. -/
theorem Planned.dest_eq {entry : ManifestFile} {plan : Pending}
    (h : Planned number roots disk p entry plan) :
    roots.of (Path.cleanPath entry.path) ++ Path.components (Path.cleanPath entry.path) =
      plan.dest := by
  obtain ⟨comps, data, hbelow, hdest, -⟩ := h
  rw [hdest, hbelow.components_eq]

theorem dests_eq {entries : List ManifestFile} {plans : List Pending}
    (h : List.Forall₂ (Planned number roots disk p) entries plans) :
    plans.map (·.dest) = entries.map fun entry =>
      roots.of (Path.cleanPath entry.path) ++ Path.components (Path.cleanPath entry.path) := by
  induction h with
  | nil => rfl
  | cons hplanned _ ih => rw [List.map_cons, List.map_cons, ih, hplanned.dest_eq]

/-- The bytes with which a file comes back when there is no live config file. -/
def BackAs (number : List Char → Option (List Char)) (f : SourceFile) (data : Bytes) : Prop :=
  if Path.cleanPath f.rel = configName then mergeConfigSecret number f.data none = .ok data
  else data = f.data

/-- The plan for a file of a whole snapshot. -/
theorem Whole.planned {store : String} {plan : Pending} (hclean : Path.IsClean p)
    (h : Whole e sources kind now disk p) (hproper : Proper expected sources)
    (hempty : roots.Empty disk) (hf : f ∈ allFiles sources)
    (hplan : Planned number roots disk p (manifestFile store f) plan) :
    plan.dest = roots.place f ∧ BackAs number f plan.data := by
  have hbelow := h.below hf
  have hsame : Path.cleanPath (manifestFile store f).path = Path.cleanPath f.rel :=
    hbelow.cleanPath_eq.1
  have hdest := hplan.dest_eq
  obtain ⟨comps, data, -, -, hdata, hplan⟩ := hplan
  rw [hsame, hbelow.join_eq hclean, h.readFile hproper hf] at hdata
  obtain rfl := Option.some.inj hdata
  rw [hsame, FileTree.readFile, hempty.config] at hplan
  rw [hsame] at hdest
  exact ⟨hdest.symm, hplan⟩

theorem allEntries_paths (sources : List Source) :
    (allEntries sources).map (·.path) =
      (allFiles sources).map fun f => Path.cleanPath f.rel := by
  unfold allEntries allFiles
  rw [List.map_flatMap, List.map_flatMap]
  refine List.flatMap_congr fun src _ => ?_
  rw [List.map_map]
  rfl

/-- **The plan of a restore into empty roots**: nothing is in the way, and every file but
`server.json` is in it. -/
theorem Whole.plans {plans : List Pending} (hclean : Path.IsClean p)
    (h : Whole e sources kind now disk p) (hproper : Proper expected sources)
    (hempty : roots.Empty disk) (hapart : roots.Apart dir)
    (hplans : planFiles number roots disk p (allEntries sources) = .ok plans) :
    (∀ disk', roots.Empty disk' → Clear plans disk') ∧
    (∀ f ∈ allFiles sources, Path.cleanPath f.rel ≠ serverName → ∃ plan ∈ plans,
      plan.dest = roots.place f ∧ BackAs number f plan.data) ∧
    (∀ plan ∈ plans, ∃ f ∈ allFiles sources, Path.cleanPath f.rel ≠ serverName ∧
      plan.dest = roots.place f) := by
  have heach := (planFiles_spec _ hplans).2
  -- each entry is that of a file, whose path it has
  have hfile : ∀ entry ∈ allEntries sources, ∃ f ∈ allFiles sources, ∃ store,
      entry = manifestFile store f ∧ Path.cleanPath entry.path = Path.cleanPath f.rel := by
    intro entry hentry
    obtain ⟨src, hsrc, f, hf, rfl⟩ := mem_allEntries.mp hentry
    have hmem : f ∈ allFiles sources := mem_allFiles.mpr ⟨src, hsrc, hf⟩
    exact ⟨f, hmem, _, rfl, (h.below hmem).cleanPath_eq.1⟩
  have hback : ∀ plan ∈ plans, ∃ f ∈ allFiles sources, Path.cleanPath f.rel ≠ serverName ∧
      plan.dest = roots.place f := by
    intro plan hplan
    obtain ⟨entry, hentry, hplanned⟩ := exists_planned heach hplan
    obtain ⟨hentry, hserver⟩ := List.mem_filter.mp hentry
    obtain ⟨f, hf, store, rfl, hsame⟩ := hfile entry hentry
    refine ⟨f, hf, ?_, (h.planned hclean hproper hempty hf hplanned).1⟩
    rw [← hsame]
    exact of_decide_eq_true hserver
  refine ⟨fun disk' hempty' => ⟨fun plan hplan q hq hne => ?_, fun plan hplan => ?_, ?_⟩, ?_, hback⟩
  · obtain ⟨f, hf, -, hdest⟩ := hback plan hplan
    rw [hdest] at hq hne
    exact (hempty'.place (h.below hf).ne).2 q hq hne
  · obtain ⟨f, hf, -, hdest⟩ := hback plan hplan
    rw [hdest, (hempty'.place (h.below hf).ne).1]
    exact fun hc => (nomatch hc)
  · -- the places are those of the entries, one after the other
    have hdests := dests_eq heach
    have hdistinct : (allEntries sources).Pairwise fun a b => a.path ≠ b.path := by
      have hpaths := hproper.distinct
      rw [← List.pairwise_map (f := fun f : SourceFile => Path.cleanPath f.rel) (R := (· ≠ ·)),
        ← allEntries_paths, List.pairwise_map] at hpaths
      exact hpaths
    rw [← List.pairwise_map (f := fun plan : Pending => plan.dest)
      (R := fun a b => ¬ a <+: b ∧ ¬ b <+: a), hdests, List.pairwise_map]
    refine (hdistinct.filter _).imp_of_mem fun {a b} ha hb hne => ?_
    obtain ⟨f, hf, _, rfl, hsame⟩ := hfile a (List.mem_filter.mp ha).1
    obtain ⟨g, hg, _, rfl, hsame'⟩ := hfile b (List.mem_filter.mp hb).1
    rw [hsame, hsame']
    exact ⟨h.place_apart hproper hapart hf hg hne, h.place_apart hproper hapart hg hf hne.symm⟩
  · intro f hf hserver
    obtain ⟨src, hsrc, hmem⟩ := mem_allFiles.mp hf
    have hsame : Path.cleanPath (manifestFile src.name f).path = Path.cleanPath f.rel :=
      (h.below hf).cleanPath_eq.1
    have hentry : manifestFile src.name f ∈
        (allEntries sources).filter fun f => Path.cleanPath f.path ≠ serverName :=
      List.mem_filter.mpr ⟨mem_allEntries.mpr ⟨src, hsrc, f, hmem, rfl⟩,
        decide_eq_true (hsame ▸ hserver)⟩
    obtain ⟨plan, hplan, hplanned⟩ := planned_of_mem heach hentry
    exact ⟨plan, hplan, h.planned hclean hproper hempty hf hplanned⟩

/-- What comes back: every file at its own path with its bytes, but for the config file, which
comes back as it is merged without a live one, and `server.json`, which stays as it is. -/
structure CameBack (number : List Char → Option (List Char)) (roots : RestoreRoots)
    (sources : List Source) (before after : FileTree Bytes) : Prop where
  files : ∀ f ∈ allFiles sources, Path.cleanPath f.rel ≠ configName →
    Path.cleanPath f.rel ≠ serverName →
    after.readFile (roots.hubRoot ++ Path.components (Path.cleanPath f.rel)) = some f.data
  config : ∀ f ∈ allFiles sources, Path.cleanPath f.rel = configName → ∃ data,
    mergeConfigSecret number f.data none = .ok data ∧
      after.readFile (roots.configDir ++ [configName]) = some data
  server : ∀ root ∈ [roots.hubRoot, roots.configDir],
    after.readFile (root ++ [serverName]) = before.readFile (root ++ [serverName])

/-- No file but `server.json` itself is restored to where one is. -/
theorem RestoreRoots.Apart.place_server (h : roots.Apart dir) (hbelow : compsOf f ≠ [])
    (hserver : Path.cleanPath f.rel ≠ serverName) {root : Path}
    (hroot : root ∈ [roots.hubRoot, roots.configDir]) : roots.place f ≠ root ++ [serverName] := by
  intro heq
  have hcomps : compsOf f ≠ [serverName] := by
    intro hone
    refine hserver ?_
    rw [← slashed_compsOf, hone, slashed_singleton]
  unfold RestoreRoots.place RestoreRoots.of at heq
  split at heq
  · next hconfig =>
    rw [compsOf_config hconfig] at heq
    have hname := List.append_inj_right' heq rfl
    exact absurd (List.cons.inj hname).1 (by decide)
  · rcases List.mem_cons.mp hroot with rfl | hroot
    · exact hcomps (List.append_cancel_left heq)
    · rw [List.mem_singleton.mp hroot] at heq
      -- the root of the hub is above the config directory, so it is that directory
      rcases List.prefix_concat_iff.mp (heq ▸ List.prefix_append roots.hubRoot (compsOf f)) with
        hsame | hpre
      · rw [hsame] at heq
        exact hbelow (List.append_cancel_left (heq.trans (List.append_nil _).symm))
      · rw [h.inside hpre] at heq
        exact hcomps (List.append_cancel_left heq)

/-- **What was backed up comes back.** A snapshot that a run has written, and has not removed
itself, verifies, and restoring it into empty roots brings everything back, on a file system
that refuses nothing and with a backup before the restore that comes about. -/
theorem backup_comes_back (hdir : e.dir = some dir)
    (hrun : (runAt e faults sources kind now disk).manifest.isSome)
    (hkept : (runAt e faults sources kind now disk).disk.get (newSnapshotDir disk dir kind now) ≠
      none)
    (hproper : Proper expected sources) (hconfig : ConfigReads number sources) :
    (∃ rep, e.verify (runAt e faults sources kind now disk).disk (newSnapshotDir disk dir kind now)
      expected = .ok rep ∧ rep.ok = true ∧ rep.warning = none) ∧
    ∀ (roots : RestoreRoots) (live : FileTree Bytes) (faults' : Faults) (sources' : List Source)
      (now' : Time),
      (∀ rest, live.get (newSnapshotDir disk dir kind now ++ rest) =
        (runAt e faults sources kind now disk).disk.get (newSnapshotDir disk dir kind now ++ rest)) →
      roots.Empty live → roots.Apart dir → (∀ q, faults'.write q = false) →
      (runAt e faults' sources' .preRestore now' live).err = none →
      (restore number roots e expected faults' sources' now' (newSnapshotDir disk dir kind now)
        live).err = none ∧
      CameBack number roots sources live (restore number roots e expected faults' sources' now'
        (newSnapshotDir disk dir kind now) live).disk := by
  obtain ⟨m, hm⟩ := Option.isSome_iff_exists.mp hrun
  have hwhole := runAt_whole hdir hm hkept
  obtain ⟨i, hname, -⟩ := newSnapshotDir_spec disk dir kind now
  have hclean : Path.IsClean (newSnapshotDir disk dir kind now) := by
    rw [hname]
    exact snapshotDir_clean (e.clean dir hdir) _ now i
  refine ⟨hwhole.verify hclean hproper, fun roots live faults' sources' now' hsame hempty hapart
    hwrite herr => ?_⟩
  have hlive : Whole e sources kind now live (newSnapshotDir disk dir kind now) := by
    have hself := hsame []
    rw [List.append_nil] at hself
    exact hwhole.of_kept (fun _ => hsame) (hself ▸ hkept)
  obtain ⟨plans, hvalid, hplans⟩ := (hlive.accepted hclean hproper hconfig hempty).validate
  obtain ⟨hclear, hto, hfrom⟩ := hlive.plans hclean hproper hempty hapart hplans
  obtain ⟨name', hchanges⟩ := preRestore_changes hdir
  -- the roots are still empty when the writing begins
  have hthere : live.get (snapshotDir dir kind (suffixed (formatTS now) i)) ≠ none := by
    rw [← hname, hlive.dir]
    exact Option.some_ne_none _
  have hempty' := hempty.preRestore hapart hthere hchanges
  have hserver : ∀ root ∈ [roots.hubRoot, roots.configDir],
      (runAt e faults' sources' .preRestore now' live).disk.readFile (root ++ [serverName]) =
        live.readFile (root ++ [serverName]) := by
    intro root hroot
    refine hchanges.readFile_eq (preRestore_not_above ?_ serverName)
    rcases List.mem_cons.mp hroot with rfl | hroot
    · exact hapart.hub
    · rw [List.mem_singleton.mp hroot]
      exact hapart.config
  cases hbefore : runAt e faults' sources' .preRestore now' live with
  | mk after m' err =>
  rw [hbefore] at herr hempty' hserver
  dsimp only at herr hempty' hserver
  subst herr
  have hrestored : restore number roots e expected faults' sources' now'
      (newSnapshotDir disk dir kind now) live = writeAll faults' plans after := by
    unfold restore
    rw [hvalid]
    dsimp only
    rw [hbefore]
  obtain ⟨hdone, hall⟩ := writeAll_ok hwrite plans after (hclear after hempty')
  rw [hrestored]
  refine ⟨hdone, fun f hf hnot hnot' => ?_, fun f hf hconf => ?_, fun root hroot => ?_⟩
  · obtain ⟨plan, hplan, hdest, hback⟩ := hto f hf hnot'
    have hread := hall plan hplan
    rw [BackAs, if_neg hnot] at hback
    rw [hdest, RestoreRoots.place, RestoreRoots.of, if_neg hnot, hback] at hread
    exact hread
  · have hnot : Path.cleanPath f.rel ≠ serverName := by
      rw [hconf]
      decide
    obtain ⟨plan, hplan, hdest, hback⟩ := hto f hf hnot
    have hread := hall plan hplan
    rw [BackAs, if_pos hconf] at hback
    rw [hdest, RestoreRoots.place, RestoreRoots.of, if_pos hconf, compsOf_config hconf] at hread
    exact ⟨plan.data, hback, hread⟩
  · rw [(writeAll_spec plans after).2, hserver root hroot]
    intro hmem
    obtain ⟨plan, hplan, heq⟩ := (writeAll_spec plans after).1 _ hmem
    obtain ⟨f, hf, hnot, hdest⟩ := hfrom plan hplan
    exact hapart.place_server (hlive.below hf).ne hnot hroot (hdest.symm.trans heq.symm)

/-- One file of a hub, and a config file with a blank secret. -/
def pinsFile : SourceFile where
  rel := "pins/pins-u.json"
  data := [123, 125]

def plainConfig : SourceFile where
  rel := configName
  data := encodeUtf8 "\x7b\"client_secret\":\"\"\x7d".toList
  size := by decide +kernel

def plainSources : List Source :=
  [{ name := "pins", files := [pinsFile] }, { name := "config", files := [plainConfig] }]

/-- The disk after they are backed up. -/
def plainDisk : FileTree Bytes :=
  (runAt plainEngine {} plainSources .manual (emptyRun lastSecond).now .empty).disk

theorem plainRoots_empty : plainRoots.Empty plainDisk where
  hub comps hcomps := by
    refine FileTree.get_below ?_ (List.prefix_append _ _) (append_ne_self hcomps).symm
    rw [show plainDisk.get plainRoots.hubRoot = none from by decide +kernel]
    exact fun hc => (nomatch hc)
  config := by decide +kernel
  hubFree q hq := by
    have hall : ∀ q ∈ plainRoots.hubRoot.inits, plainDisk.readFile q = none := by decide +kernel
    exact hall q ((List.mem_inits _ _).mpr hq)
  configFree q hq := by
    have hall : ∀ q ∈ plainRoots.configDir.inits, plainDisk.readFile q = none := by decide +kernel
    exact hall q ((List.mem_inits _ _).mpr hq)

theorem plainRoots_apart : plainRoots.Apart ["backups"] where
  inside := by decide
  file := by decide
  hub := by decide
  config := by decide

theorem backup_comes_back_plain :
    CameBack some plainRoots plainSources plainDisk
      (restore some plainRoots plainEngine (fun _ _ => none) {} [] (emptyRun firstSecond).now
        (newSnapshotDir .empty ["backups"] .manual (emptyRun lastSecond).now) plainDisk).disk := by
  have hproper : Proper (fun _ _ => none) plainSources := by
    refine ⟨?_, ?_, ?_, ?_⟩
    · decide
    · decide
    · decide +kernel
    · rintro _ - _ - _ ⟨⟩
  have hconfig : ConfigReads some plainSources := by
    intro f hf hname
    refine Option.isSome_iff_exists.mp ?_
    revert f
    decide +kernel
  exact ((backup_comes_back (e := plainEngine) rfl (by decide +kernel)
    (by decide +kernel) hproper hconfig).2 plainRoots plainDisk {} [] (emptyRun firstSecond).now
    (fun _ => rfl) plainRoots_empty plainRoots_apart (fun _ => rfl) (by decide +kernel)).2

/-! ## Snapshots that do not come back -/

/-- A config file that is JSON, but no map. -/
def listConfig : List Source :=
  [{ name := "config", files := [{ rel := configName, data := [91, 49, 93] }] }]

def listDisk : FileTree Bytes :=
  (runAt plainEngine {} listConfig .manual (emptyRun lastSecond).now .empty).disk

/-- Seven daily snapshots that are newer than the run to come. -/
def crowdedDisk : FileTree Bytes :=
  (List.range 7).foldl (fun disk k =>
    (disk.mkdirAll (snapshotDir ["backups"] .daily (stampName (firstSecond + 86400 * k)))).getD
      disk) .empty

/-- **A snapshot that verifies need not restore**, when its config file is no map; and a run
whose clock is behind the newest seven daily snapshots prunes what it has just written. -/
theorem backup_lost :
    ((plainEngine.verify listDisk (newSnapshotDir .empty ["backups"] .manual
      (emptyRun lastSecond).now) (fun _ _ => none)).toOption.map (·.ok) = some true ∧
    (restore some plainRoots plainEngine (fun _ _ => none) {} [] (emptyRun firstSecond).now
      (newSnapshotDir .empty ["backups"] .manual (emptyRun lastSecond).now) listDisk).err =
        some .configNotJSON) ∧
    ((runAt plainEngine {} [] .daily (emptyRun lastSecond).now crowdedDisk).manifest.isSome ∧
    (runAt plainEngine {} [] .daily (emptyRun lastSecond).now crowdedDisk).disk.get
      (newSnapshotDir crowdedDisk ["backups"] .daily (emptyRun lastSecond).now) = none) := by
  decide +kernel

end FusionLocalServer.Backup
