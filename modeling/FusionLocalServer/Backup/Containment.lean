import Mathlib.Data.List.Forall2
import FusionLocalServer.Backup.Retention
import FusionLocalServer.Backup.Verify

/-!
# Where a restore writes, and when

Whatever the manifest says, a restore writes below the root of the hub, or the one config
file; the rest of what it changes is the new snapshot of the data it replaces. A snapshot
that is not accepted changes nothing at all: not even that snapshot is taken.
-/

namespace FusionLocalServer.Backup

open Lib Lib.Json

variable {number : List Char → Option (List Char)} {roots : RestoreRoots} {e : Engine}
  {expected : Expected} {faults : Faults} {sources : List Source} {now : Time}
  {disk disk' : FileTree Bytes} {snapDir : Path} {m : Manifest} {f : ManifestFile}

/-! ## Paths -/

theorem safeRel_iff {rel clean : String} :
    safeRel rel = some clean ↔ clean = Path.cleanPath rel ∧ Path.escapes clean = false := by
  unfold safeRel
  dsimp only
  split
  · next hout =>
    constructor
    · intro h
      cases h
    · rintro ⟨rfl, hin⟩
      rw [hout] at hin
      cases hin
  · next hin =>
    rw [Bool.not_eq_true] at hin
    constructor
    · intro h
      cases h
      exact ⟨rfl, hin⟩
    · rintro ⟨rfl, -⟩
      rfl

/-- A path below stays below its root. -/
theorem containedJoin_below {root comps : Path} {rel : String} (hroot : Path.IsClean root)
    (h : Path.Below rel comps) : containedJoin root rel = some (root ++ comps) := by
  unfold containedJoin
  dsimp only
  rw [h.join_eq hroot, Path.relTo_append]
  have hhead : comps.head? ≠ some ".." := by
    intro hhead
    have hplain := h.clean ".." (List.mem_of_mem_head? hhead)
    exact hplain.2.2 rfl
  rw [if_neg hhead]

theorem below_name {name : String} (hplain : Path.Plain name) (hslash : '/' ∉ name.toList) :
    Path.Below name [name] where
  text := by rw [Path.slashed]; simp [List.intercalate]
  ne := List.cons_ne_nil _ _
  clean comp h := by
    rw [List.mem_singleton.mp h]
    exact hplain
  no_slash comp h := by
    rw [List.mem_singleton.mp h]
    exact hslash

/-- The root an entry goes to. -/
def RestoreRoots.of (roots : RestoreRoots) (rel : String) : Path :=
  if rel = configName then roots.configDir else roots.hubRoot

theorem RestoreRoots.of_clean (rel : String) : Path.IsClean (roots.of rel) := by
  unfold RestoreRoots.of
  split
  · exact roots.configClean
  · exact roots.hubClean

/-- A place that a restore may write: one below the root of the hub, or the config file. -/
def RestoreRoots.Allows (roots : RestoreRoots) (p : Path) : Prop :=
  (∃ comps, comps ≠ [] ∧ Path.IsClean comps ∧ p = roots.hubRoot ++ comps) ∨
    p = roots.configDir ++ [configName]

/-! ## The checks of an entry -/

/-- What a restore asks of an entry: a path that stays below, and for all but `server.json` a
file that is there and has the checksum; the config file must read as one. -/
structure Acceptable (number : List Char → Option (List Char)) (roots : RestoreRoots)
    (disk : FileTree Bytes) (snapDir : Path) (f : ManifestFile) : Prop where
  inside : Path.escapes (Path.cleanPath f.path) = false
  intact : Path.cleanPath f.path ≠ serverName → ∃ data,
    disk.readFile (Path.join snapDir (Path.cleanPath f.path)) = some data ∧
      Sha256.hexSum data = f.sha256 ∧
      (Path.cleanPath f.path = configName → ∃ merged,
        mergeConfigSecret number data (disk.readFile (roots.configDir ++ [configName])) = .ok merged)

/-- What is planned for an entry: its bytes at its place below its root. -/
def Planned (number : List Char → Option (List Char)) (roots : RestoreRoots)
    (disk : FileTree Bytes) (snapDir : Path) (f : ManifestFile) (p : Pending) : Prop :=
  ∃ comps data, Path.Below (Path.cleanPath f.path) comps ∧
    p.dest = roots.of (Path.cleanPath f.path) ++ comps ∧
    disk.readFile (Path.join snapDir (Path.cleanPath f.path)) = some data ∧
    if Path.cleanPath f.path = configName then
      mergeConfigSecret number data (disk.readFile (roots.configDir ++ [configName])) = .ok p.data
    else p.data = data

theorem Planned.allows {p : Pending} (h : Planned number roots disk snapDir f p) :
    roots.Allows p.dest := by
  obtain ⟨comps, data, hbelow, hdest, -, -⟩ := h
  unfold RestoreRoots.of at hdest
  split at hdest
  · next hconfig =>
    -- the config file is one component
    have hone : comps = [configName] := by
      rw [← hbelow.components_eq, hconfig]
      exact (below_name (by decide) (by decide)).components_eq
    rw [hone] at hdest
    exact .inr hdest
  · exact .inl ⟨comps, hbelow.ne, hbelow.clean, hdest⟩

/-- **The checks of one entry.** -/
theorem planFile_spec (hok : planFile number roots disk snapDir f = .ok plan) :
    Acceptable number roots disk snapDir f ∧
      (if Path.cleanPath f.path = serverName then plan = none
        else ∃ p, plan = some p ∧ Planned number roots disk snapDir f p) := by
  unfold planFile at hok
  split at hok
  · cases hok
  · next rel hrel =>
    obtain ⟨rfl, hin⟩ := safeRel_iff.mp hrel
    obtain ⟨comps, hbelow⟩ := Path.below_of_not_escapes hin
    split at hok
    · next hserver =>
      cases hok
      exact ⟨⟨hin, fun hne => absurd hserver hne⟩, by rw [if_pos hserver]⟩
    · next hserver =>
      dsimp only at hok
      split at hok
      · cases hok
      · next dest hdest =>
        have hplace : dest = roots.of (Path.cleanPath f.path) ++ comps := by
          have hjoin := containedJoin_below (roots.of_clean (Path.cleanPath f.path)) hbelow
          exact Option.some.inj (hdest.symm.trans hjoin)
        split at hok
        · cases hok
        · next data hdata =>
          split at hok
          · cases hok
          · next hsum =>
            rw [ne_eq, not_not] at hsum
            rw [if_neg hserver]
            split at hok
            · next hconfig =>
              split at hok
              · cases hok
              · next merged hmerged =>
                cases hok
                exact ⟨⟨hin, fun _ => ⟨data, hdata, hsum, fun _ => ⟨merged, hmerged⟩⟩⟩, _, rfl,
                  comps, data, hbelow, hplace, hdata, by rw [if_pos hconfig]; exact hmerged⟩
            · next hconfig =>
              cases hok
              exact ⟨⟨hin, fun _ => ⟨data, hdata, hsum, fun hc => absurd hc hconfig⟩⟩, _, rfl,
                comps, data, hbelow, hplace, hdata, by rw [if_neg hconfig]⟩

/-- An acceptable entry passes. -/
theorem planFile_ok (h : Acceptable number roots disk snapDir f) :
    ∃ plan, planFile number roots disk snapDir f = .ok plan := by
  obtain ⟨comps, hbelow⟩ := Path.below_of_not_escapes h.inside
  unfold planFile
  rw [safeRel_iff.mpr ⟨rfl, h.inside⟩]
  dsimp only
  by_cases hserver : Path.cleanPath f.path = serverName
  · exact ⟨none, if_pos hserver⟩
  · obtain ⟨data, hdata, hsum, hmerge⟩ := h.intact hserver
    have hjoin := containedJoin_below (roots.of_clean (Path.cleanPath f.path)) hbelow
    unfold RestoreRoots.of at hjoin
    rw [if_neg hserver, hjoin, hdata]
    dsimp only
    rw [if_neg (not_not.mpr hsum)]
    by_cases hconfig : Path.cleanPath f.path = configName
    · obtain ⟨merged, hmerged⟩ := hmerge hconfig
      rw [if_pos hconfig, hmerged]
      exact ⟨_, rfl⟩
    · exact ⟨_, if_neg hconfig⟩

/-- **The checks of all entries**: what is planned is planned for one entry after the other, but
for those of `server.json`. -/
theorem planFiles_spec (files : List ManifestFile) :
    ∀ {plans}, planFiles number roots disk snapDir files = .ok plans →
      (∀ f ∈ files, Acceptable number roots disk snapDir f) ∧
      List.Forall₂ (Planned number roots disk snapDir)
        (files.filter fun f => Path.cleanPath f.path ≠ serverName) plans := by
  induction files with
  | nil =>
    intro plans h
    cases h
    exact ⟨fun f hf => (nomatch hf), .nil⟩
  | cons f files ih =>
    intro plans h
    rw [planFiles] at h
    split at h
    · cases h
    · next plan hplan =>
      split at h
      · cases h
      · next rest hrest =>
        cases h
        obtain ⟨haccept, hplanned⟩ := planFile_spec hplan
        obtain ⟨hall, heach⟩ := ih hrest
        refine ⟨List.forall_mem_cons.mpr ⟨haccept, hall⟩, ?_⟩
        by_cases hserver : Path.cleanPath f.path = serverName
        · rw [if_pos hserver] at hplanned
          rw [List.filter_cons_of_neg (by simp [hserver]), hplanned]
          exact heach
        · rw [if_neg hserver] at hplanned
          obtain ⟨p, rfl, hp⟩ := hplanned
          rw [List.filter_cons_of_pos (by simp [hserver])]
          exact .cons hp heach

/-- What is planned is planned for some entry. -/
theorem exists_planned {files : List ManifestFile} {plans : List Pending}
    (h : List.Forall₂ (Planned number roots disk snapDir) files plans) {p : Pending}
    (hp : p ∈ plans) : ∃ f ∈ files, Planned number roots disk snapDir f p := by
  induction h with
  | nil => cases hp
  | cons hplanned _ ih =>
    rcases List.mem_cons.mp hp with rfl | hp
    · exact ⟨_, List.mem_cons_self, hplanned⟩
    · obtain ⟨f, hf, hplanned⟩ := ih hp
      exact ⟨f, List.mem_cons_of_mem _ hf, hplanned⟩

/-- Something is planned for each entry. -/
theorem planned_of_mem {files : List ManifestFile} {plans : List Pending}
    (h : List.Forall₂ (Planned number roots disk snapDir) files plans) (hf : f ∈ files) :
    ∃ p ∈ plans, Planned number roots disk snapDir f p := by
  induction h with
  | nil => cases hf
  | cons hplanned _ ih =>
    rcases List.mem_cons.mp hf with rfl | hf
    · exact ⟨_, List.mem_cons_self, hplanned⟩
    · obtain ⟨p, hp, hplanned⟩ := ih hf
      exact ⟨p, List.mem_cons_of_mem _ hp, hplanned⟩

theorem planFiles_ok (files : List ManifestFile)
    (h : ∀ f ∈ files, Acceptable number roots disk snapDir f) :
    ∃ plans, planFiles number roots disk snapDir files = .ok plans := by
  induction files with
  | nil => exact ⟨[], rfl⟩
  | cons f files ih =>
    obtain ⟨plan, hplan⟩ := planFile_ok (h f List.mem_cons_self)
    obtain ⟨plans, hplans⟩ := ih fun g hg => h g (List.mem_cons_of_mem _ hg)
    rw [planFiles, hplan, hplans]
    exact ⟨_, rfl⟩

/-! ## The checks of a snapshot -/

theorem checkSchema_iff (files : List ManifestFile) :
    checkSchema expected files = .ok () ↔
      ∀ f ∈ files, ∀ cur, expected f.store f.path = some cur → f.schemaVersion ≤ cur := by
  induction files with
  | nil => exact ⟨fun _ f hf => (nomatch hf), fun _ => rfl⟩
  | cons f files ih =>
    rw [checkSchema, List.forall_mem_cons]
    split
    · next cur hcur =>
      split
      · next hnewer =>
        constructor
        · intro h
          cases h
        · rintro ⟨hle, -⟩
          have := hle cur hcur
          omega
      · next hle =>
        rw [ih]
        constructor
        · intro hrest
          refine ⟨fun cur' hcur' => ?_, hrest⟩
          rw [hcur] at hcur'
          cases hcur'
          omega
        · exact fun h => h.2
    · next hnone =>
      rw [ih]
      constructor
      · intro hrest
        refine ⟨fun cur hcur => ?_, hrest⟩
        rw [hnone] at hcur
        cases hcur
      · exact fun h => h.2

/-- What a restore asks of a snapshot. -/
structure Accepted (number : List Char → Option (List Char)) (roots : RestoreRoots) (e : Engine)
    (expected : Expected) (disk : FileTree Bytes) (snapDir : Path) (m : Manifest) : Prop where
  manifest : readManifest disk snapDir = .ok m
  version : 2 ≤ m.version
  hubSlug : m.hubSlug = e.hubSlug
  hub : m.hub = "" ∨ e.hub = "" ∨ m.hub = e.hub
  app : snapshotNewerThanApp m.appVersion e.appVersion = false
  schema : ∀ f ∈ m.files, ∀ cur, expected f.store f.path = some cur → f.schemaVersion ≤ cur
  files : ∀ f ∈ m.files, Acceptable number roots disk snapDir f

theorem checkRestorable_iff :
    checkRestorable e m = .ok () ↔
      2 ≤ m.version ∧ m.hubSlug = e.hubSlug ∧ (m.hub = "" ∨ e.hub = "" ∨ m.hub = e.hub) := by
  unfold checkRestorable
  split
  · constructor
    · intro h
      cases h
    · intro h
      omega
  · split
    · next hother =>
      constructor
      · intro h
        cases h
      · rintro ⟨-, hslug, hhub⟩
        rcases hother with hother | ⟨hm, he, hne⟩
        · exact absurd hslug hother
        · rcases hhub with hhub | hhub | hhub
          · exact absurd hhub hm
          · exact absurd hhub he
          · exact absurd hhub hne
    · next hsame =>
      refine ⟨fun _ => ⟨by omega, ?_⟩, fun _ => rfl⟩
      tauto

/-- **A snapshot that is validated is accepted**, and each file goes where it may. -/
theorem validate_spec {plans : List Pending}
    (h : validate number roots e expected disk snapDir = .ok plans) :
    ∃ m, Accepted number roots e expected disk snapDir m ∧
      planFiles number roots disk snapDir m.files = .ok plans := by
  unfold validate at h
  split at h
  · cases h
  · next m hm =>
    split at h
    · cases h
    · next hsame =>
      split at h
      · cases h
      · next happ =>
        split at h
        · cases h
        · next hschema =>
          obtain ⟨hversion, hslug, hhub⟩ := checkRestorable_iff.mp hsame
          exact ⟨m, ⟨hm, hversion, hslug, hhub, Bool.not_eq_true _ ▸ happ,
            (checkSchema_iff _).mp hschema, (planFiles_spec _ h).1⟩, h⟩

theorem Accepted.validate (h : Accepted number roots e expected disk snapDir m) :
    ∃ plans, validate number roots e expected disk snapDir = .ok plans ∧
      planFiles number roots disk snapDir m.files = .ok plans := by
  obtain ⟨plans, hplans⟩ := planFiles_ok m.files h.files
  refine ⟨plans, ?_, hplans⟩
  unfold Backup.validate
  rw [h.manifest]
  dsimp only
  rw [checkRestorable_iff.mpr ⟨h.version, h.hubSlug, h.hub⟩]
  dsimp only
  rw [if_neg (by rw [h.app]; exact Bool.false_ne_true), (checkSchema_iff _).mpr h.schema]
  exact hplans

/-! ## The writes -/

/-- Only what is planned is written, and no other file changes. -/
theorem writeAll_spec (plans : List Pending) :
    ∀ disk : FileTree Bytes,
      (∀ q ∈ (writeAll faults plans disk).written, ∃ p ∈ plans, q = p.dest) ∧
      ∀ q, q ∉ (writeAll faults plans disk).written →
        (writeAll faults plans disk).disk.readFile q = disk.readFile q := by
  induction plans with
  | nil => exact fun disk => ⟨fun q hq => (nomatch hq), fun q _ => rfl⟩
  | cons p plans ih =>
    intro disk
    rw [writeAll]
    split
    · exact ⟨fun q hq => (nomatch hq), fun q _ => rfl⟩
    · next made hmade =>
      split
      · exact ⟨fun q hq => (nomatch hq), fun q _ => readFile_mkdirAll (mkdirAll_some hmade) q⟩
      · next written hwritten =>
        obtain ⟨hmem, hframe⟩ := ih written
        constructor
        · intro q hq
          rcases List.mem_cons.mp hq with rfl | hq
          · exact ⟨p, List.mem_cons_self, rfl⟩
          · obtain ⟨p', hp', rfl⟩ := hmem q hq
            exact ⟨p', List.mem_cons_of_mem _ hp', rfl⟩
        · intro q hq
          obtain ⟨hne, hq⟩ := List.ne_and_not_mem_of_not_mem_cons hq
          rw [hframe q hq, readFile_writeFile (writeFile_some hwritten), if_neg hne,
            readFile_mkdirAll (mkdirAll_some hmade)]

variable (e faults sources now disk) in
/-- The backup before the writes stays in its new directory. -/
theorem runAt_preRestore :
    (runAt e faults sources .preRestore now disk).disk = disk ∨
    ∃ dir, e.dir = some dir ∧
      FileTree.ChangesBelow (newSnapshotDir disk dir .preRestore now) disk
        (runAt e faults sources .preRestore now disk).disk := by
  unfold runAt
  cases hdir : e.dir with
  | none => exact .inl rfl
  | some dir =>
    refine .inr ⟨dir, rfl, ?_⟩
    obtain ⟨i, hname, hfree⟩ := newSnapshotDir_spec disk dir .preRestore now
    have hclean : Path.IsClean (newSnapshotDir disk dir .preRestore now) := by
      rw [hname]
      exact snapshotDir_clean (e.clean dir hdir) _ now i
    have hbelow := (takeSnapshot_spec e faults sources .preRestore now hclean hfree).1
    dsimp only
    split
    · next hsnap =>
      rw [hsnap] at hbelow
      exact hbelow
    · next hsnap =>
      rw [hsnap] at hbelow
      exact hbelow

/-- **A restore writes below the root of the hub, or the config file**, whatever the manifest
says; besides, it changes the files of the one snapshot it takes first. A snapshot that is not
accepted is refused with nothing changed. -/
theorem restore_contained (number : List Char → Option (List Char)) (roots : RestoreRoots)
    (e : Engine) (expected : Expected) (faults : Faults) (sources : List Source) (now : Time)
    (snapDir : Path) (disk : FileTree Bytes) :
    (∀ p ∈ (restore number roots e expected faults sources now snapDir disk).written,
      roots.Allows p) ∧
    (∀ p, (restore number roots e expected faults sources now snapDir disk).disk.readFile p ≠
        disk.readFile p →
      p ∈ (restore number roots e expected faults sources now snapDir disk).written ∨
        ∃ dir, e.dir = some dir ∧ newSnapshotDir disk dir .preRestore now <+: p) ∧
    ((¬ ∃ m, Accepted number roots e expected disk snapDir m) → ∃ err,
      restore number roots e expected faults sources now snapDir disk = ⟨disk, [], some err⟩) := by
  unfold restore
  split
  · next err _ =>
    exact ⟨fun p hp => (nomatch hp), fun p hp => absurd rfl hp, fun _ => ⟨err, rfl⟩⟩
  · next plans hplans =>
    obtain ⟨m, haccept, hplan⟩ := validate_spec hplans
    have hrun := runAt_preRestore e faults sources now disk
    have hsnap : ∀ p, (runAt e faults sources .preRestore now disk).disk.readFile p ≠
        disk.readFile p →
        ∃ dir, e.dir = some dir ∧ newSnapshotDir disk dir .preRestore now <+: p := by
      intro p hp
      rcases hrun with hsame | ⟨dir, hdir, hchanges⟩
      · rw [hsame] at hp
        exact absurd rfl hp
      · refine ⟨dir, hdir, ?_⟩
        by_contra hnot
        exact hp (hchanges.readFile_eq hnot)
    split
    · next hout =>
      rw [hout] at hsnap
      exact ⟨fun p hp => (nomatch hp), fun p hp => .inr (hsnap p hp),
        fun hnot => absurd ⟨m, haccept⟩ hnot⟩
    · next after _ hout =>
      rw [hout] at hsnap
      obtain ⟨hmem, hframe⟩ := writeAll_spec plans after
      refine ⟨fun p hp => ?_, fun p hp => ?_, fun hnot => absurd ⟨m, haccept⟩ hnot⟩
      · obtain ⟨plan, hplan', rfl⟩ := hmem p hp
        obtain ⟨f, -, hplanned⟩ := exists_planned (planFiles_spec m.files hplan).2 hplan'
        exact hplanned.allows
      · by_cases hwritten : p ∈ (writeAll faults plans after).written
        · exact .inl hwritten
        · rw [hframe p hwritten] at hp
          exact .inr (hsnap p hp)

/-! ## A snapshot that is restored with a file that does not parse -/

/-- The roots of a hub below a config directory. -/
def plainRoots : RestoreRoots where
  hubRoot := ["config", "hubs", "h"]
  configDir := ["config"]
  hubClean := by decide
  configClean := by decide

/-- One file with half a JSON text, and one of `server.json` that is not there. -/
def garbledFiles : List ManifestFile :=
  [{ path := "pins/pins-u.json", store := "pins", sha256 := Sha256.hexSum [123], size := 1 },
   { path := serverName, store := "config", size := 1 }]

def garbledDir : Path := ["backups", "manual", "20260731-033000"]

def garbledDisk : FileTree Bytes :=
  let m : Manifest := { version := 2, createdAt := 0, kind := "manual", files := garbledFiles }
  let disk : Option (FileTree Bytes) := do
    let disk ← FileTree.empty.mkdirAll (garbledDir ++ ["pins"])
    let disk ← disk.writeFile (garbledDir ++ [manifestName]) (m.marshal.getD [])
    let disk ← disk.writeFile (garbledDir ++ ["pins", "pins-u.json"]) [123]
    disk.mkdirAll plainRoots.hubRoot
  disk.getD .empty

/-- What restoring it leaves. -/
def garbledRestored : Restored :=
  restore some plainRoots plainEngine (fun _ _ => none) {} [] (emptyRun lastSecond).now garbledDir
    garbledDisk

/-- **It is restored all the same**, and the backup before it lies outside the roots. -/
theorem restore_garbled :
    parseCheck "pins/pins-u.json" [123] = false ∧
    garbledDisk.readFile (garbledDir ++ [serverName]) = none ∧
    (readManifest garbledDisk garbledDir).toOption.map (·.files) = some garbledFiles ∧
    garbledRestored.err = none ∧
    garbledRestored.disk.readFile (plainRoots.hubRoot ++ ["pins", "pins-u.json"]) = some [123] ∧
    garbledDisk.readFile (snapshotDir ["backups"] .preRestore (stampName lastSecond) ++
      [manifestName]) = none ∧
    (garbledRestored.disk.readFile (snapshotDir ["backups"] .preRestore (stampName lastSecond) ++
      [manifestName])).isSome := by
  decide +kernel

end FusionLocalServer.Backup
