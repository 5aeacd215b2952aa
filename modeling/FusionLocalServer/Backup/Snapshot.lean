import FusionLocalServer.Backup.Engine

/-!
# What a snapshot holds

A snapshot that comes about holds its manifest and, at each path handed over, what was
handed over there last; nothing else. One that does not come about leaves nothing. Either
way nothing outside its directory changes but for the directories above it.
-/

namespace FusionLocalServer.Backup

open Lib

variable {e : Engine} {faults : Faults} {disk disk' : FileTree Bytes} {snapDir p q : Path}
  {store : String} {sources : List Source} {kind : Kind} {now : Time}

theorem mkdirAll_some (h : mkdirAll faults disk p = some disk') : disk.mkdirAll p = some disk' := by
  unfold mkdirAll at h
  split at h
  · cases h
  · exact h

theorem writeFile_some {data : Bytes} (h : writeFile faults disk p data = some disk') :
    disk.writeFile p data = some disk' := by
  unfold writeFile at h
  split at h
  · cases h
  · exact h

/-! ## Files and directories -/

/-- No directory goes away. -/
def KeepsDirs (disk disk' : FileTree Bytes) : Prop :=
  ∀ q, disk.get q = some .dir → disk'.get q = some .dir

theorem keepsDirs_mkdirAll (h : disk.mkdirAll p = some disk') : KeepsDirs disk disk' :=
  fun _ hq => FileTree.get_mkdirAll_of_some h hq

theorem keepsDirs_writeFile {data : Bytes} (h : disk.writeFile p data = some disk') :
    KeepsDirs disk disk' := by
  intro q hq
  have hself := (FileTree.writeFile_eq_some.mp ⟨disk', h⟩).2
  have hne : q ≠ p := by
    rintro rfl
    exact hself hq
  rw [FileTree.get_writeFile h, if_neg hne]
  exact hq

/-- Making directories makes and removes no file. -/
theorem readFile_mkdirAll (h : disk.mkdirAll p = some disk') (q : Path) :
    disk'.readFile q = disk.readFile q := by
  unfold FileTree.readFile
  rw [FileTree.get_mkdirAll h]
  by_cases hnew : q <+: p ∧ disk.get q = none
  · rw [if_pos hnew, hnew.2]
  · rw [if_neg hnew]

theorem readFile_writeFile {data : Bytes} (h : disk.writeFile p data = some disk') (q : Path) :
    disk'.readFile q = if q = p then some data else disk.readFile q := by
  unfold FileTree.readFile
  rw [FileTree.get_writeFile h]
  by_cases hq : q = p
  · rw [if_pos hq, if_pos hq]
  · rw [if_neg hq, if_neg hq]

/-! ## Visits -/

/-- What is handed over last at a path below the snapshot. -/
def handed (files : List SourceFile) (comps : Path) : Option Bytes :=
  (files.reverse.find? fun f => Path.components (Path.cleanPath f.rel) = comps).map (·.data)

theorem handed_append (fs gs : List SourceFile) (comps : Path) :
    handed (fs ++ gs) comps = (handed gs comps).or (handed fs comps) := by
  unfold handed
  rw [List.reverse_append, List.find?_append, Option.map_or]

theorem handed_singleton (f : SourceFile) (comps : Path) :
    handed [f] comps =
      if Path.components (Path.cleanPath f.rel) = comps then some f.data else none := by
  unfold handed
  rw [List.reverse_singleton, List.find?_singleton]
  split <;> next h => simp at h; simp [h]

/-- What a step of collecting does to the disk: it works below the snapshot, keeps
directories, and adds the files handed over. -/
structure Collects (snapDir : Path) (files : List SourceFile) (disk disk' : FileTree Bytes) :
    Prop where
  below : FileTree.ChangesBelow snapDir disk disk'
  dirs : KeepsDirs disk disk'
  inside : ∀ f ∈ files, Path.escapes (Path.cleanPath f.rel) = false
  read : ∀ comps, disk'.readFile (snapDir ++ comps) =
    (handed files comps).or (disk.readFile (snapDir ++ comps))

theorem Collects.nil : Collects snapDir [] disk disk where
  below := .refl
  dirs _ h := h
  inside _ h := (nomatch h)
  read _ := rfl

theorem Collects.trans {fs gs : List SourceFile} {disk'' : FileTree Bytes}
    (h : Collects snapDir fs disk disk') (h' : Collects snapDir gs disk' disk'') :
    Collects snapDir (fs ++ gs) disk disk'' where
  below := h.below.trans h'.below
  dirs q hq := h'.dirs q (h.dirs q hq)
  inside f hf := by
    rcases List.mem_append.mp hf with hf | hf
    · exact h.inside f hf
    · exact h'.inside f hf
  read comps := by rw [h'.read, h.read, handed_append, Option.or_assoc]

/-- A visit stays below the snapshot; when it succeeds it adds its file. -/
theorem visit_spec (hclean : Path.IsClean snapDir) (f : SourceFile) :
    FileTree.ChangesBelow snapDir disk (visit faults snapDir store disk f).1 ∧
      ∀ entry, (visit faults snapDir store disk f).2 = .ok entry →
        entry = manifestFile store f ∧
          Collects snapDir [f] disk (visit faults snapDir store disk f).1 := by
  unfold visit
  dsimp only
  split
  · exact ⟨.refl, fun entry h => (nomatch h)⟩
  · next hin =>
    rw [Bool.not_eq_true] at hin
    obtain ⟨comps, hbelow⟩ := Path.below_of_not_escapes hin
    rw [hbelow.join_eq hclean]
    have hdrop : snapDir <+: (snapDir ++ comps).dropLast := by
      rw [List.dropLast_append_of_ne_nil hbelow.ne]
      exact List.prefix_append ..
    split
    · exact ⟨.refl, fun entry h => (nomatch h)⟩
    · next hmade =>
      have hmade := mkdirAll_some hmade
      have hbelow₁ := FileTree.changesBelow_mkdirAll hmade hdrop
      split
      · exact ⟨hbelow₁, fun entry h => (nomatch h)⟩
      · next hwritten =>
        have hwritten := writeFile_some hwritten
        have hbelow₂ := FileTree.changesBelow_writeFile hwritten (List.prefix_append snapDir comps)
        refine ⟨hbelow₁.trans hbelow₂, fun entry h => ?_⟩
        cases h
        refine ⟨rfl, hbelow₁.trans hbelow₂, ?_, ?_, ?_⟩
        · exact fun q hq => keepsDirs_writeFile hwritten q (keepsDirs_mkdirAll hmade q hq)
        · intro g hg
          rw [List.mem_singleton.mp hg]
          exact hin
        · intro comps'
          rw [readFile_writeFile hwritten, readFile_mkdirAll hmade, handed_singleton,
            hbelow.components_eq]
          by_cases heq : comps = comps'
          · rw [heq, if_pos rfl, if_pos rfl, Option.some_or]
          · have hne : snapDir ++ comps' ≠ snapDir ++ comps := fun hc =>
              heq (List.append_cancel_left hc).symm
            rw [if_neg hne, if_neg heq, Option.none_or]

theorem visitAll_spec (hclean : Path.IsClean snapDir) (fs : List SourceFile) :
    ∀ disk : FileTree Bytes,
    FileTree.ChangesBelow snapDir disk (visitAll faults snapDir store fs disk).1 ∧
      ∀ entries, (visitAll faults snapDir store fs disk).2 = .ok entries →
        entries = fs.map (manifestFile store) ∧
          Collects snapDir fs disk (visitAll faults snapDir store fs disk).1 := by
  induction fs with
  | nil =>
    refine fun disk => ⟨.refl, fun entries h => ?_⟩
    cases h
    exact ⟨rfl, .nil⟩
  | cons f fs ih =>
    intro disk
    obtain ⟨hbelow, hok⟩ := visit_spec hclean f
    rw [visitAll]
    split
    · next hvisit =>
      rw [hvisit] at hbelow
      exact ⟨hbelow, fun entries h => (nomatch h)⟩
    · next hvisit =>
      rw [hvisit] at hbelow hok
      obtain ⟨rfl, hcol⟩ := hok _ rfl
      obtain ⟨hbelow', hok'⟩ := ih _
      split
      · next hrest =>
        rw [hrest] at hbelow'
        exact ⟨hbelow.trans hbelow', fun entries h => (nomatch h)⟩
      · next hrest =>
        rw [hrest] at hbelow' hok'
        refine ⟨hbelow.trans hbelow', fun entries h => ?_⟩
        cases h
        obtain ⟨rfl, hcol'⟩ := hok' _ rfl
        exact ⟨rfl, hcol.trans hcol'⟩

/-- The files of all sources, in the order of the visits, and their manifest entries. -/
def allFiles (sources : List Source) : List SourceFile := sources.flatMap (·.files)

def allEntries (sources : List Source) : List ManifestFile :=
  sources.flatMap fun src => src.files.map (manifestFile src.name)

theorem collect_spec (hclean : Path.IsClean snapDir) (sources : List Source) :
    ∀ disk : FileTree Bytes,
    FileTree.ChangesBelow snapDir disk (collect faults snapDir sources disk).1 ∧
      ∀ entries, (collect faults snapDir sources disk).2 = .ok entries →
        entries = allEntries sources ∧
          Collects snapDir (allFiles sources) disk (collect faults snapDir sources disk).1 := by
  induction sources with
  | nil =>
    refine fun disk => ⟨.refl, fun entries h => ?_⟩
    cases h
    exact ⟨rfl, .nil⟩
  | cons src srcs ih =>
    intro disk
    obtain ⟨hbelow, hok⟩ := visitAll_spec hclean src.files disk
    rw [collect]
    split
    · next hvisit =>
      rw [hvisit] at hbelow
      exact ⟨hbelow, fun entries h => (nomatch h)⟩
    · next hvisit =>
      rw [hvisit] at hbelow hok
      obtain ⟨rfl, hcol⟩ := hok _ rfl
      split
      · exact ⟨hbelow, fun entries h => (nomatch h)⟩
      · obtain ⟨hbelow', hok'⟩ := ih _
        split
        · next hrest =>
          rw [hrest] at hbelow'
          exact ⟨hbelow.trans hbelow', fun entries h => (nomatch h)⟩
        · next hrest =>
          rw [hrest] at hbelow' hok'
          refine ⟨hbelow.trans hbelow', fun entries h => ?_⟩
          cases h
          obtain ⟨rfl, hcol'⟩ := hok' _ rfl
          exact ⟨rfl, hcol.trans hcol'⟩

/-! ## Snapshots -/

/-- The files of a snapshot: its manifest, and what was handed over. -/
def contentOf (data : Bytes) (files : List SourceFile) (comps : Path) : Option Bytes :=
  if comps = [manifestName] then some data else handed files comps

/-- A directory that holds the snapshot of a run whole, and nothing else. -/
structure Whole (e : Engine) (sources : List Source) (kind : Kind) (now : Time)
    (disk : FileTree Bytes) (snapDir : Path) : Prop where
  dir : disk.get snapDir = some .dir
  content : ∃ data, (newManifest e kind now (allEntries sources)).marshal = some data ∧
    ∀ comps, disk.readFile (snapDir ++ comps) = contentOf data (allFiles sources) comps
  inside : ∀ f ∈ allFiles sources, Path.escapes (Path.cleanPath f.rel) = false

variable (e faults sources kind now) in
/-- **A snapshot comes about whole or not at all**, and leaves everything else alone. -/
theorem takeSnapshot_spec (hclean : Path.IsClean snapDir) (hfresh : disk.get snapDir = none) :
    FileTree.ChangesBelow snapDir disk
        (takeSnapshot e faults sources kind now snapDir disk).1 ∧
      (∀ m, (takeSnapshot e faults sources kind now snapDir disk).2 = .ok m →
        m = newManifest e kind now (allEntries sources) ∧
          Whole e sources kind now (takeSnapshot e faults sources kind now snapDir disk).1 snapDir) ∧
      (∀ err, (takeSnapshot e faults sources kind now snapDir disk).2 = .error err →
        ∀ q, snapDir <+: q →
          (takeSnapshot e faults sources kind now snapDir disk).1.get q = none) := by
  have hnone : ∀ q, snapDir <+: q → disk.get q = none := by
    intro q hq
    by_cases heq : snapDir = q
    · rw [← heq]
      exact hfresh
    · refine FileTree.get_below ?_ hq heq
      rw [hfresh]
      exact fun hc => (nomatch hc)
  have hroot : snapDir ≠ [] := by
    rintro rfl
    rw [disk.root] at hfresh
    cases hfresh
  have hremoved : ∀ (disk : FileTree Bytes) q, snapDir <+: q →
      (disk.removeAll snapDir).get q = none := by
    intro disk q hq
    have hne : q ≠ [] := by
      rintro rfl
      exact hroot (List.prefix_nil.mp hq)
    rw [FileTree.get_removeAll, if_pos ⟨hq, hne⟩]
  unfold takeSnapshot
  split
  · exact ⟨.refl, fun m h => (nomatch h), fun err _ => hnone⟩
  · next made hmade =>
    have hmade := mkdirAll_some hmade
    have hbelow₁ := FileTree.changesBelow_mkdirAll hmade (List.prefix_refl snapDir)
    have hdir := FileTree.get_mkdirAll_self hmade
    have hempty : ∀ comps, made.readFile (snapDir ++ comps) = none := by
      intro comps
      rw [readFile_mkdirAll hmade, FileTree.readFile, hnone _ (List.prefix_append ..)]
    obtain ⟨hbelow₂, hok⟩ := collect_spec hclean sources made
    split
    · next hcollect =>
      rw [hcollect] at hbelow₂
      exact ⟨(hbelow₁.trans hbelow₂).trans (FileTree.changesBelow_removeAll _ _),
        fun m h => (nomatch h), fun err _ => hremoved _⟩
    · next collected files hcollect =>
      rw [hcollect] at hbelow₂ hok
      obtain ⟨rfl, hcol⟩ := hok _ rfl
      dsimp only
      split
      · exact ⟨(hbelow₁.trans hbelow₂).trans (FileTree.changesBelow_removeAll _ _),
          fun m h => (nomatch h), fun err _ => hremoved _⟩
      · next data hdata =>
        split
        · exact ⟨(hbelow₁.trans hbelow₂).trans (FileTree.changesBelow_removeAll _ _),
            fun m h => (nomatch h), fun err _ => hremoved _⟩
        · next hwritten =>
          have hwritten := writeFile_some hwritten
          have hbelow₃ := FileTree.changesBelow_writeFile hwritten
            (List.prefix_append snapDir [manifestName])
          refine ⟨(hbelow₁.trans hbelow₂).trans hbelow₃, fun m h => ?_, fun err h => (nomatch h)⟩
          cases h
          refine ⟨rfl, keepsDirs_writeFile hwritten _ (hcol.dirs _ hdir), ⟨data, hdata, ?_⟩,
            hcol.inside⟩
          intro comps
          rw [readFile_writeFile hwritten, hcol.read, hempty, Option.or_none, contentOf]
          by_cases heq : comps = [manifestName]
          · rw [heq, if_pos rfl, if_pos rfl]
          · rw [if_neg heq, if_neg fun hc => heq (List.append_cancel_left hc)]

end FusionLocalServer.Backup
