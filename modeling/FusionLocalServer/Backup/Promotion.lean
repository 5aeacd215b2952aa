import FusionLocalServer.Backup.Retention

/-!
# Promotion copies whole snapshots, unless a copy stops

A run removes a snapshot that does not come about. A promotion does not: a copy that stops
after it has made its directory leaves the directory, which then counts as the snapshot of
its period. As long as no copy stops there, every snapshot of the weekly and the monthly tier
is a whole copy of a daily one, and a period without one gets one from the next run whose
copies go through.
-/

namespace FusionLocalServer.Backup

open Lib

variable {e : Engine} {faults : Faults} {disk disk' : FileTree Bytes} {dir p : Path}
  {sources : List Source} {kind kind' : Kind} {now : Time} {name : String}
  {es : List RunInput} {r : RunInput}

/-- A run, however it ends. -/
def Runs (e : Engine) (disk : FileTree Bytes) (r : RunInput) (disk' : FileTree Bytes) : Prop :=
  (runAt e r.faults r.sources r.kind r.now disk).disk = disk'

/-- No promotion copy of the run stops once it has made its directory. -/
def RunInput.CopiesWhole (r : RunInput) : Prop :=
  ∀ kind ∈ [Kind.weekly, .monthly], ∀ stop, r.faults.copy kind = some stop → stop.done = 0

/-- A directory that holds what the daily snapshot of a run holds. -/
abbrev CopyOf (e : Engine) (r : RunInput) (disk : FileTree Bytes) (p : Path) : Prop :=
  Whole e r.sources .daily r.now disk p

/-- The tiers of the ladder. -/
def ladderKinds : List Kind := [.daily, .weekly, .monthly]

/-! ## Whole snapshots -/

/-- A snapshot stays whole when nothing below it changes. -/
theorem Whole.of_changes (h : Whole e sources kind now disk p) {q : Path}
    (hchanges : FileTree.ChangesBelow q disk disk') (hapart : ∀ rest, ¬ q <+: p ++ rest) :
    Whole e sources kind now disk' p := by
  obtain ⟨hdir, ⟨data, hdata, hcontent⟩, hinside⟩ := h
  refine ⟨?_, ⟨data, hdata, fun comps => ?_⟩, hinside⟩
  · have hself := hapart []
    rw [List.append_nil] at hself
    exact hchanges.get_of_some hself hdir
  · rw [hchanges.readFile_eq (hapart comps)]
    exact hcontent comps

/-- A copy of a whole snapshot is one. -/
theorem Whole.copied {q : Path} (h : Whole e sources kind now disk p)
    (hcopy : ∀ rest, disk'.get (q ++ rest) = disk.get (p ++ rest)) :
    Whole e sources kind now disk' q := by
  obtain ⟨hdir, ⟨data, hdata, hcontent⟩, hinside⟩ := h
  refine ⟨?_, ⟨data, hdata, fun comps => ?_⟩, hinside⟩
  · have hself := hcopy []
    rw [List.append_nil, List.append_nil] at hself
    rw [hself, hdir]
  · unfold FileTree.readFile
    rw [hcopy]
    exact hcontent comps

/-! ## The folder of a history of runs -/

/-- A snapshot directory of the ladder comes from one of the daily runs. -/
def FromRun (e : Engine) (es : List RunInput) (disk : FileTree Bytes) (p : Path) (name : String) :
    Prop :=
  ∃ r ∈ es, r.kind = .daily ∧ (∃ i, name = suffixed (formatTS r.now) i) ∧ CopyOf e r disk p

/-- Whatever is in a tier of the ladder is the whole snapshot of a run. -/
structure Sound (e : Engine) (dir : Path) (es : List RunInput) (disk : FileTree Bytes) : Prop where
  clear : ∀ kind ∈ ladderKinds, disk.readFile (dir ++ [kind.text]) = none
  whole : ∀ kind ∈ ladderKinds, ∀ name, disk.get (snapshotDir dir kind name) ≠ none →
    FromRun e es disk (snapshotDir dir kind name) name

theorem Sound.nil (h : EmptyFolder disk dir) : Sound e dir [] disk where
  clear kind _ := by
    unfold FileTree.readFile
    rw [h _ (List.prefix_append ..) (append_ne_self (List.cons_ne_nil _ _))]
  whole kind _ name hget :=
    absurd (h _ (List.prefix_append ..) (append_ne_self (List.cons_ne_nil _ _))) hget

theorem Sound.mono {es' : List RunInput} (h : Sound e dir es disk) (hsub : es ⊆ es') :
    Sound e dir es' disk where
  clear := h.clear
  whole kind hkind name hget := by
    obtain ⟨r, hr, hrest⟩ := h.whole kind hkind name hget
    exact ⟨r, hsub hr, hrest⟩

/-- **One snapshot directory changes**: the folder stays sound when what is there afterwards
is whole. -/
theorem Sound.change (h : Sound e dir es disk)
    (hchanges : FileTree.ChangesBelow (snapshotDir dir kind name) disk disk')
    (hnew : kind ∈ ladderKinds → disk'.get (snapshotDir dir kind name) ≠ none →
      FromRun e es disk' (snapshotDir dir kind name) name) :
    Sound e dir es disk' where
  clear kind' hkind' := by
    rw [hchanges.readFile_eq snapshotDir_not_isPrefix_tier]
    exact h.clear kind' hkind'
  whole kind' hkind' name' hget := by
    by_cases heq : snapshotDir dir kind name = snapshotDir dir kind' name'
    · obtain ⟨rfl, rfl⟩ := snapshotDir_injective heq
      exact hnew hkind' hget
    · rw [get_snapshotDir_of_changes hchanges heq] at hget
      obtain ⟨r, hr, hdaily, hname, hcopy⟩ := h.whole kind' hkind' name' hget
      exact ⟨r, hr, hdaily, hname, hcopy.of_changes hchanges fun _ => snapshotDir_not_isPrefix heq⟩

/-- Taking away snapshots leaves sound what is left. -/
theorem Sound.removed (names : List String) :
    ∀ disk, Sound e dir es disk →
      Sound e dir es
        (names.foldl (fun disk name => disk.removeAll (snapshotDir dir kind name)) disk) := by
  induction names with
  | nil => exact fun _ h => h
  | cons name names ih =>
    intro disk h
    refine ih _ (h.change (FileTree.changesBelow_removeAll disk _) fun _ hget => absurd ?_ hget)
    have hne : snapshotDir dir kind name ≠ [] :=
      List.append_ne_nil_of_right_ne_nil _ (List.cons_ne_nil _ _)
    exact (FileTree.get_removeAll ..).trans (if_pos ⟨List.prefix_refl _, hne⟩)

theorem Sound.pruneTier (h : Sound e dir es disk) (kind : Kind) (keep : Nat) :
    Sound e dir es (pruneTier dir kind keep disk).1 := by
  unfold FusionLocalServer.Backup.pruneTier
  split
  · exact h
  · exact h.removed _ _

theorem Sound.prune (h : Sound e dir es disk) : Sound e dir es (prune dir disk).1 := by
  have h₁ := h.pruneTier .daily keepDaily
  unfold FusionLocalServer.Backup.prune
  split
  · next hrun =>
    rw [hrun] at h₁
    exact h₁
  · next disk₁ hrun =>
    rw [hrun] at h₁
    have h₂ := Sound.pruneTier h₁ .weekly keepWeekly
    split
    · next hrun =>
      rw [hrun] at h₂
      exact h₂
    · next disk₂ hrun =>
      rw [hrun] at h₂
      exact Sound.pruneTier h₂ .monthly keepMonthly

/-- The listing of a tier of a sound folder. -/
theorem Sound.listing (h : Sound e dir es disk) (hkind : kind ∈ ladderKinds) :
    ∃ names, tierSnapshots disk dir kind = .ok names ∧ names.Pairwise (· > ·) ∧
      ∀ name, name ∈ names ↔
        disk.get (snapshotDir dir kind name) = some .dir ∧ (parseTS name).isSome :=
  tierSnapshots_spec (h.clear kind hkind)

/-- A snapshot in a tier, and the run it comes from. -/
theorem Sound.of_mem (h : Sound e dir es disk) (hkind : kind ∈ ladderKinds) {names : List String}
    (hnames : tierSnapshots disk dir kind = .ok names) (hmem : name ∈ names) :
    FromRun e es disk (snapshotDir dir kind name) name := by
  obtain ⟨names', hnames', -, hiff⟩ := h.listing hkind
  obtain rfl := Except.ok.inj (hnames.symm.trans hnames')
  refine h.whole kind hkind name ?_
  rw [((hiff name).mp hmem).1]
  exact Option.some_ne_none _

/-! ## Promotion -/

/-- Nothing is in the way of a snapshot of a tier when another tier has one. -/
theorem free_of_snapshot (hclear : disk.readFile (dir ++ [kind.text]) = none)
    (hfresh : disk.get (snapshotDir dir kind name) = none)
    (hother : disk.get (snapshotDir dir kind' name) = some .dir) :
    ∀ q, q <+: snapshotDir dir kind name → disk.readFile q = none := by
  intro q hq
  have hsplit : snapshotDir dir kind name = (dir ++ [kind.text]) ++ [name] :=
    (List.append_assoc dir [kind.text] [name]).symm
  rw [hsplit] at hq
  rcases List.prefix_concat_iff.mp hq with rfl | hq
  · rw [← hsplit, FileTree.readFile, hfresh]
  · rcases List.prefix_concat_iff.mp hq with rfl | hq
    · exact hclear
    · have hdir : disk.get q = some .dir := by
        have hthere : disk.get (snapshotDir dir kind' name) ≠ none := by
          rw [hother]
          exact Option.some_ne_none _
        refine FileTree.dir_of_isPrefix hthere (hq.trans (List.prefix_append ..)) ?_
        rintro rfl
        have hlen := hq.length_le
        rw [snapshotDir, List.length_append] at hlen
        exact absurd hlen (by simp)
      rw [FileTree.readFile, hdir]

/-- What a run of a sound folder promotes: the newest daily snapshot is of its own time, and
when a tier has none of the period it is not there yet. -/
theorem Sound.promoteTo {newest : String} {key : Int → Bool} {err : Option Err}
    (h : Sound e dir es disk) (hkind : kind ∈ ladderKinds) (hne : kind ≠ .daily)
    (hnewest : disk.get (snapshotDir dir .daily newest) = some .dir)
    (hkey : ∃ s, parseTS newest = some s ∧ key s = true)
    (hcopies : ∀ stop, faults.copy kind = some stop → stop.done = 0)
    (hrun : promoteTo faults dir kind newest key disk = (disk', err)) :
    Sound e dir es disk' ∧
      FileTree.ChangesBelow (snapshotDir dir kind newest) disk disk' ∧
      (faults.copy kind = none → err = none ∧ tierHas disk' dir kind key = .ok true) := by
  obtain ⟨names, hnames, -, hmem⟩ := h.listing hkind
  obtain ⟨s, hparse, hs⟩ := hkey
  have hhas : ∀ {d : FileTree Bytes} {ns : List String}, tierSnapshots d dir kind = .ok ns →
      newest ∈ ns → tierHas d dir kind key = .ok true := by
    intro d ns hns hin
    rw [tierHas, hns]
    refine congrArg Except.ok (List.any_eq_true.mpr ⟨newest, hin, ?_⟩)
    rw [hparse, Option.any_some]
    exact hs
  have hlisted : tierHas disk dir kind key = .ok (names.any fun n => (parseTS n).any key) := by
    rw [tierHas, hnames]
  rcases promoteTo_cases hrun with ⟨_, hbad, -⟩ | ⟨hcovered, rfl, rfl⟩ | ⟨hnone, ok, hcopy, hok⟩
  · rw [hlisted] at hbad
    cases hbad
  · exact ⟨h, .refl, fun _ => ⟨rfl, hcovered⟩⟩
  · -- it is not there yet, for its time would be of the period
    have hfresh : disk.get (snapshotDir dir kind newest) = none := by
      by_contra hthere
      obtain ⟨_, -, -, -, hcopyOf⟩ := h.whole kind hkind newest hthere
      have hin := (hmem newest).mpr ⟨hcopyOf.dir, by rw [hparse]; rfl⟩
      have htrue := hhas hnames hin
      rw [hnone] at htrue
      cases htrue
    have hchanges := copyDir_changes (snapshotDir dir .daily newest)
      (snapshotDir dir kind newest) (faults.copy kind) disk
    rw [hcopy] at hchanges
    have hsame : disk' = disk ∨ faults.copy kind = none := by
      cases hstop : faults.copy kind with
      | none => exact .inr rfl
      | some stop =>
        obtain ⟨done, torn⟩ := stop
        obtain rfl : done = 0 := hcopies _ hstop
        rw [hstop] at hcopy
        exact .inl (Prod.mk.inj hcopy).1.symm
    have hapart : ∀ q, snapshotDir dir .daily newest <+: q → ¬ snapshotDir dir kind newest <+: q := by
      rintro q ⟨rest, rfl⟩
      exact snapshotDir_not_isPrefix fun heq => hne (snapshotDir_injective heq).1
    have hgo : faults.copy kind = none → ok = true ∧ ∀ rest,
        disk'.get (snapshotDir dir kind newest ++ rest) =
          disk.get (snapshotDir dir .daily newest ++ rest) := by
      intro hstop
      obtain ⟨copied, hfull, hget, -⟩ := copyDir_fresh hapart hnewest hfresh
        (free_of_snapshot (h.clear kind hkind) hfresh hnewest)
      rw [hstop, hfull] at hcopy
      cases hcopy
      exact ⟨rfl, hget⟩
    have hsound : Sound e dir es disk' := by
      rcases hsame with rfl | hstop
      · exact h
      · refine h.change hchanges fun _ _ => ?_
        obtain ⟨r, hr, hdaily, hname, hwhole⟩ := h.whole .daily (by decide) newest
          (by rw [hnewest]; exact Option.some_ne_none _)
        exact ⟨r, hr, hdaily, hname, hwhole.copied (hgo hstop).2⟩
    refine ⟨hsound, hchanges, fun hstop => ⟨hok.mpr (hgo hstop).1, ?_⟩⟩
    obtain ⟨names', hnames', -, hmem'⟩ := hsound.listing hkind
    refine hhas hnames' ((hmem' newest).mpr ⟨?_, by rw [hparse]; rfl⟩)
    have hself := (hgo hstop).2 []
    rw [List.append_nil, List.append_nil] at hself
    rw [hself, hnewest]

/-- What happens to a snapshot of another tier does not show in a tier. -/
theorem Sound.tierHas_of_changes {key : Int → Bool} (h : Sound e dir es disk)
    (hkind : kind ∈ ladderKinds) (hne : kind' ≠ kind)
    (hchanges : FileTree.ChangesBelow (snapshotDir dir kind' name) disk disk') :
    tierHas disk' dir kind key = tierHas disk dir kind key := by
  have hclear := h.clear kind hkind
  have hlisting : tierSnapshots disk' dir kind = tierSnapshots disk dir kind := by
    refine tierSnapshots_congr hclear ?_ fun n => ?_
    · rw [hchanges.readFile_eq snapshotDir_not_isPrefix_tier]
      exact hclear
    · have hapart : snapshotDir dir kind' name ≠ snapshotDir dir kind n := fun heq =>
        hne (snapshotDir_injective heq).1
      exact get_snapshotDir_of_changes hchanges hapart
  rw [tierHas, hlisting, tierHas]

/-- **The newest daily snapshot** is of the time of the run that has just taken one. -/
theorem Sound.newest {own : String} (h : Sound e dir es disk)
    (hyears : ∀ r ∈ es, InYears r.second) (hpast : ∀ r ∈ es, r.second ≤ secondOf now)
    (hown : disk.get (snapshotDir dir .daily own) = some .dir)
    (hparse : parseTS own = some (secondOf now)) :
    ∃ newest, newestSnapshot disk dir .daily = some newest ∧
      disk.get (snapshotDir dir .daily newest) = some .dir ∧
      parseTS newest = some (secondOf now) := by
  obtain ⟨names, hnames, hsorted, hmem⟩ := h.listing (show Kind.daily ∈ ladderKinds by decide)
  have hin := (hmem own).mpr ⟨hown, by rw [hparse]; rfl⟩
  cases names with
  | nil => cases hin
  | cons newest names =>
    have hdir := ((hmem newest).mp List.mem_cons_self).1
    refine ⟨newest, by rw [newestSnapshot, hnames], hdir, ?_⟩
    obtain ⟨r, hr, -, ⟨i, rfl⟩, -⟩ := h.of_mem (by decide) hnames List.mem_cons_self
    have hread := parseTS_suffixed (hyears r hr) i
    rcases lt_or_eq_of_le (hpast r hr) with hlt | heq
    · -- an older one would be listed behind the run's own
      have hbefore := lt_of_parseTS hread hparse hlt
      rcases List.mem_cons.mp hin with rfl | hin
      · exact absurd hbefore (lt_irrefl _)
      · exact absurd (hbefore.trans ((List.pairwise_cons.mp hsorted).1 own hin)) (lt_irrefl _)
    · rw [hread]
      exact congrArg some heq

/-- Promotion keeps the folder sound, and covers the periods of the run when nothing stops
it. -/
theorem Sound.promote {own : String} (h : Sound e dir es disk)
    (hyears : ∀ r ∈ es, InYears r.second) (hpast : ∀ r ∈ es, r.second ≤ secondOf now)
    (hown : disk.get (snapshotDir dir .daily own) = some .dir)
    (hparse : parseTS own = some (secondOf now))
    (hcopies : ∀ kind ∈ [Kind.weekly, .monthly], ∀ stop, faults.copy kind = some stop →
      stop.done = 0) :
    Sound e dir es (promote faults dir now disk).1 ∧
      (faults.copy .weekly = none → faults.copy .monthly = none →
        (promote faults dir now disk).2 = none ∧
        tierHas (promote faults dir now disk).1 dir .weekly
          (fun s => weekOf s = weekOf (secondOf now)) = .ok true ∧
        tierHas (promote faults dir now disk).1 dir .monthly
          (fun s => monthOf s = monthOf (secondOf now)) = .ok true) := by
  obtain ⟨newest, hnewest, hdir, htime⟩ := h.newest hyears hpast hown hparse
  unfold FusionLocalServer.Backup.promote
  rw [hnewest]
  dsimp only
  cases hweek : FusionLocalServer.Backup.promoteTo faults dir .weekly newest
      (fun s => weekOf s = weekOf (secondOf now)) disk with
  | mk disk₁ err₁ =>
  obtain ⟨hsound₁, hchanges₁, hcovered₁⟩ := h.promoteTo (by decide) (by decide) hdir
    ⟨_, htime, decide_eq_true rfl⟩ (hcopies _ (by decide)) hweek
  cases err₁ with
  | some err =>
    refine ⟨hsound₁, fun hw _ => ?_⟩
    cases (hcovered₁ hw).1
  | none =>
    dsimp only
    have hdir₁ : disk₁.get (snapshotDir dir .daily newest) = some .dir := by
      refine hchanges₁.get_of_some ?_ hdir
      have hne : snapshotDir dir .weekly newest ≠ snapshotDir dir .daily newest := fun heq =>
        absurd (snapshotDir_injective heq).1 (by decide)
      exact snapshotDir_not_isPrefix_self hne
    cases hmonth : FusionLocalServer.Backup.promoteTo faults dir .monthly newest
        (fun s => monthOf s = monthOf (secondOf now)) disk₁ with
    | mk disk₂ err₂ =>
    obtain ⟨hsound₂, hchanges₂, hcovered₂⟩ := hsound₁.promoteTo (by decide) (by decide) hdir₁
      ⟨_, htime, decide_eq_true rfl⟩ (hcopies _ (by decide)) hmonth
    refine ⟨hsound₂, fun hw hm => ⟨(hcovered₂ hm).1, ?_, (hcovered₂ hm).2⟩⟩
    rw [hsound₁.tierHas_of_changes (by decide) (by decide) hchanges₂]
    exact (hcovered₁ hw).2

/-! ## Pruning -/

/-- Pruning one tier does not show in another. -/
theorem Sound.tierHas_pruneTier {key : Int → Bool} (h : Sound e dir es disk)
    (kind kind' : Kind) (keep : Nat) (hkind : kind ∈ ladderKinds) (hkind' : kind' ∈ ladderKinds) (hne : kind' ≠ kind) :
    tierHas (FusionLocalServer.Backup.pruneTier dir kind' keep disk).1 dir kind key =
      tierHas disk dir kind key := by
  obtain ⟨names, hnames, -⟩ := h.listing hkind'
  obtain ⟨-, hget⟩ := pruneTier_spec hnames
  have hlisting : tierSnapshots (FusionLocalServer.Backup.pruneTier dir kind' keep disk).1 dir kind =
      tierSnapshots disk dir kind := by
    refine tierSnapshots_congr (h.clear kind hkind)
      ((h.pruneTier kind' keep).clear kind hkind) fun n => ?_
    rw [hget, if_neg]
    rintro ⟨name, -, hpre⟩
    have hapart : snapshotDir dir kind' name ≠ snapshotDir dir kind n := fun heq =>
      hne (snapshotDir_injective heq).1
    exact snapshotDir_not_isPrefix_self hapart hpre
  rw [tierHas, hlisting, tierHas]

/-- **Pruning keeps a period covered** when no snapshot of the tier is later than it. -/
theorem Sound.covered_pruneTier {key : Int → Bool} {s : Int} (h : Sound e dir es disk)
    (keep : Nat) (hkeep : 0 < keep) (hkind : kind ∈ ladderKinds) (hyears : ∀ r ∈ es, InYears r.second)
    (hpast : ∀ r ∈ es, r.second ≤ s) (hkey : ∀ a b, key a = true → a ≤ b → b ≤ s → InYears a →
      InYears b → key b = true)
    (hcovered : tierHas disk dir kind key = .ok true) :
    tierHas (FusionLocalServer.Backup.pruneTier dir kind keep disk).1 dir kind key = .ok true := by
  obtain ⟨names, hnames, hsorted, hmem⟩ := h.listing hkind
  have hany : (names.any fun n => (parseTS n).any key) = true := by
    rw [tierHas, hnames] at hcovered
    exact Except.ok.inj hcovered
  obtain ⟨n, hn, hnkey⟩ := List.any_eq_true.mp hany
  have htime : ∀ n ∈ names, ∃ u, parseTS n = some u ∧ InYears u ∧ u ≤ s := by
    intro n hn
    obtain ⟨r, hr, -, ⟨i, rfl⟩, -⟩ := h.of_mem hkind hnames hn
    exact ⟨r.second, parseTS_suffixed (hyears r hr) i, hyears r hr, hpast r hr⟩
  cases names with
  | nil => cases hn
  | cons newest names =>
    obtain ⟨a, hparse, hya, -⟩ := htime n hn
    obtain ⟨b, hparse', hyb, hbs⟩ := htime newest List.mem_cons_self
    rw [hparse, Option.any_some] at hnkey
    have hab : a ≤ b := by
      by_contra hcon
      have hlt := lt_of_parseTS hparse' hparse (lt_of_not_ge hcon)
      rcases List.mem_cons.mp hn with rfl | hn
      · exact lt_irrefl _ hlt
      · exact lt_irrefl _ (hlt.trans ((List.pairwise_cons.mp hsorted).1 n hn))
    have hbkey := hkey a b hnkey hab hbs hya hyb
    -- the newest of the tier is never pruned
    obtain ⟨-, hget⟩ := pruneTier_spec hnames
    obtain ⟨names', hnames', -, hmem'⟩ := (h.pruneTier kind keep).listing hkind
    have hstays : newest ∈ names' := by
      refine (hmem' newest).mpr ⟨?_, by rw [hparse']; rfl⟩
      rw [hget, if_neg]
      · exact ((hmem newest).mp List.mem_cons_self).1
      · rintro ⟨name, hname, hpre⟩
        obtain ⟨keep, rfl⟩ := Nat.exists_eq_succ_of_ne_zero (Nat.ne_of_gt hkeep)
        rw [List.drop_succ_cons] at hname
        have hold := (List.pairwise_cons.mp hsorted).1 name (List.mem_of_mem_drop hname)
        have hapart : snapshotDir dir kind name ≠ snapshotDir dir kind newest := fun heq =>
          ne_of_gt hold (snapshotDir_injective heq).2.symm
        exact snapshotDir_not_isPrefix_self hapart hpre
    rw [tierHas, hnames']
    refine congrArg Except.ok (List.any_eq_true.mpr ⟨newest, hstays, ?_⟩)
    rw [hparse', Option.any_some]
    exact hbkey

/-- The periods of an instant that the weekly and the monthly tier have a snapshot of. -/
structure Covered (disk : FileTree Bytes) (dir : Path) (s : Int) : Prop where
  week : tierHas disk dir .weekly (fun u => weekOf u = weekOf s) = .ok true
  month : tierHas disk dir .monthly (fun u => monthOf u = monthOf s) = .ok true

theorem Sound.covered_prune {s : Int} (h : Sound e dir es disk)
    (hyears : ∀ r ∈ es, InYears r.second) (hpast : ∀ r ∈ es, r.second ≤ s) (hs : InYears s)
    (hcovered : Covered disk dir s) : Covered (FusionLocalServer.Backup.prune dir disk).1 dir s := by
  have hweek : ∀ a b, decide (weekOf a = weekOf s) = true → a ≤ b → b ≤ s → InYears a →
      InYears b → decide (weekOf b = weekOf s) = true := by
    intro a b ha hab hbs _ _
    exact decide_eq_true (stretches_weekOf [a, b, s] a (by simp) b (by simp) s (by simp) hab hbs
      (of_decide_eq_true ha))
  have hmonth : ∀ a b, decide (monthOf a = monthOf s) = true → a ≤ b → b ≤ s → InYears a →
      InYears b → decide (monthOf b = monthOf s) = true := by
    intro a b ha hab hbs hya hyb
    have hall : ∀ u ∈ [a, b, s], InYears u := by
      intro u hu
      simp only [List.mem_cons, List.not_mem_nil, or_false] at hu
      rcases hu with rfl | rfl | rfl <;> assumption
    exact decide_eq_true (stretches_monthOf hall a (by simp) b (by simp) s (by simp) hab hbs
      (of_decide_eq_true ha))
  have hok : ∀ {disk : FileTree Bytes} (kind keep), Sound e dir es disk → kind ∈ ladderKinds →
      (FusionLocalServer.Backup.pruneTier dir kind keep disk).2 = none := by
    intro disk kind keep h hkind
    obtain ⟨names, hnames, -⟩ := h.listing hkind
    exact (pruneTier_spec hnames).1
  have hsound₁ := h.pruneTier .daily keepDaily
  have hok₁ := hok .daily keepDaily h (by decide)
  have hweek₁ := (h.tierHas_pruneTier .weekly .daily keepDaily
    (by decide) (by decide) (by decide)).trans hcovered.week
  have hmonth₁ := (h.tierHas_pruneTier .monthly .daily keepDaily
    (by decide) (by decide) (by decide)).trans hcovered.month
  unfold FusionLocalServer.Backup.prune
  generalize FusionLocalServer.Backup.pruneTier dir .daily keepDaily disk = out₁ at *
  obtain ⟨disk₁, err₁⟩ := out₁
  obtain rfl : err₁ = none := hok₁
  dsimp only at *
  have hsound₂ := hsound₁.pruneTier .weekly keepWeekly
  have hok₂ := hok .weekly keepWeekly hsound₁ (by decide)
  have hweek₂ := hsound₁.covered_pruneTier keepWeekly (by decide) (by decide) hyears hpast
    hweek hweek₁
  have hmonth₂ := (hsound₁.tierHas_pruneTier .monthly .weekly keepWeekly
    (by decide) (by decide) (by decide)).trans hmonth₁
  generalize FusionLocalServer.Backup.pruneTier dir .weekly keepWeekly disk₁ = out₂ at *
  obtain ⟨disk₂, err₂⟩ := out₂
  obtain rfl : err₂ = none := hok₂
  exact ⟨(hsound₂.tierHas_pruneTier .weekly .monthly keepMonthly (by decide) (by decide) (by decide)).trans hweek₂,
    hsound₂.covered_pruneTier keepMonthly (by decide) (by decide) hyears hpast hmonth hmonth₂⟩

/-! ## Runs -/

/-- **A run keeps the folder sound**, and when it takes a daily snapshot and no copy stops it
covers its periods. -/
theorem Sound.run (h : Sound e dir es disk) (hdir : e.dir = some dir) (hcaller : Callers disk r)
    (hcopies : r.CopiesWhole) (hyears : ∀ r' ∈ es ++ [r], InYears r'.second)
    (hpast : ∀ r' ∈ es ++ [r], r'.second ≤ r.second) :
    Sound e dir (es ++ [r]) (runAt e r.faults r.sources r.kind r.now disk).disk ∧
      (r.kind = .daily → r.faults.copy .weekly = none → r.faults.copy .monthly = none →
        (runAt e r.faults r.sources r.kind r.now disk).manifest.isSome →
        Covered (runAt e r.faults r.sources r.kind r.now disk).disk dir r.second) := by
  obtain ⟨i, hname, hfresh⟩ := newSnapshotDir_spec disk dir r.kind r.now
  have hyear := hyears r (List.mem_append_right _ List.mem_cons_self)
  rw [hname] at hfresh
  obtain ⟨hchanges, hok, hfail⟩ := takeSnapshot_spec e r.faults r.sources r.kind r.now
    (snapshotDir_clean (e.clean dir hdir) r.kind r.now i) hfresh
  have hsound := h.mono (List.subset_append_left es [r])
  have hdaily : r.kind ∈ ladderKinds → r.kind = .daily := by
    intro hin
    rcases hcaller with heq | heq | heq
    · exact heq
    · rw [heq] at hin
      exact absurd hin (by decide)
    · rw [heq] at hin
      exact absurd hin (by decide)
  unfold runAt
  rw [hdir]
  dsimp only
  rw [hname]
  cases htaken : takeSnapshot e r.faults r.sources r.kind r.now
      (snapshotDir dir r.kind (suffixed (formatTS r.now) i)) disk with
  | mk taken result =>
  rw [htaken] at hchanges hok hfail
  cases result with
  | error err =>
    refine ⟨hsound.change hchanges fun _ hget => ?_, fun _ _ _ hsome => (nomatch hsome)⟩
    exact absurd (hfail err rfl _ (List.prefix_refl _)) hget
  | ok m =>
    obtain ⟨-, hwhole⟩ := hok m rfl
    have htakenSound : Sound e dir (es ++ [r]) taken := by
      refine hsound.change hchanges fun hin _ => ?_
      refine ⟨r, List.mem_append_right _ List.mem_cons_self, hdaily hin, ⟨i, rfl⟩, ?_⟩
      rw [hdaily hin] at hwhole ⊢
      exact hwhole
    dsimp only
    by_cases hkind : r.kind = .daily
    · rw [if_pos hkind]
      rw [hkind] at hwhole
      obtain ⟨hpromoted, hcovers⟩ := htakenSound.promote hyears hpast hwhole.dir
        (parseTS_suffixed hyear i) hcopies
      cases hpromote : FusionLocalServer.Backup.promote r.faults dir r.now taken with
      | mk promoted err =>
      rw [hpromote] at hpromoted hcovers
      cases err with
      | some err =>
        refine ⟨hpromoted, fun _ hw hm _ => ?_⟩
        cases (hcovers hw hm).1
      | none =>
        refine ⟨hpromoted.prune, fun _ hw hm _ => ?_⟩
        exact hpromoted.covered_prune hyears hpast hyear ⟨(hcovers hw hm).2.1, (hcovers hw hm).2.2⟩
    · rw [if_neg hkind]
      exact ⟨htakenSound, fun hc => absurd hc hkind⟩

/-- Every snapshot of the weekly and the monthly tier is a whole copy of a daily one. -/
def PromotedWhole (e : Engine) (dir : Path) (es : List RunInput) (disk : FileTree Bytes) : Prop :=
  ∀ kind ∈ [Kind.weekly, .monthly], ∀ names, tierSnapshots disk dir kind = .ok names →
    ∀ name ∈ names, ∃ r ∈ es, r.kind = .daily ∧ CopyOf e r disk (snapshotDir dir kind name)

/-- **Promotion.** As long as no copy stops once it has made its directory, every snapshot of
the weekly and the monthly tier is a whole copy of a daily one, and the next run whose copies
go through covers its week and its month, whatever failed before. -/
theorem promotion_whole (hdir : e.dir = some dir) (hempty : EmptyFolder disk dir)
    (hrun : Run (Runs e) (fun disk r => Callers disk r ∧ r.CopiesWhole) disk es disk')
    (htimes : es.Pairwise fun r r' => r.second ≤ r'.second)
    (hyears : ∀ r ∈ es, InYears r.second) :
    PromotedWhole e dir es disk' ∧
    ∀ r : RunInput, r.kind = .daily → InYears r.second → (∀ r' ∈ es, r'.second ≤ r.second) →
      r.faults.copy .weekly = none → r.faults.copy .monthly = none →
      (runAt e r.faults r.sources r.kind r.now disk').manifest.isSome →
      Covered (runAt e r.faults r.sources r.kind r.now disk').disk dir r.second := by
  have hsound : Sound e dir es disk' := by
    induction hrun with
    | nil => exact .nil hempty
    | @snoc es t u r hrun hguard hstep ih =>
      have hpast := List.pairwise_append.mp htimes
      have hsound := ih hpast.1 fun r' hr' => hyears r' (List.mem_append_left _ hr')
      refine hstep ▸ (hsound.run hdir hguard.1 hguard.2 hyears fun r' hr' => ?_).1
      rcases List.mem_append.mp hr' with hr' | hr'
      · exact hpast.2.2 r' hr' r List.mem_cons_self
      · rw [List.mem_singleton.mp hr']
  refine ⟨fun kind hkind names hnames name hname => ?_, ?_⟩
  · have hladder : kind ∈ ladderKinds := List.mem_cons_of_mem _ hkind
    obtain ⟨r, hr, hdaily, -, hcopy⟩ := hsound.of_mem hladder hnames hname
    exact ⟨r, hr, hdaily, hcopy⟩
  · intro r hkind hyear hpast hw hm hsome
    have hcopies : r.CopiesWhole := by
      intro kind hin stop hstop
      simp only [List.mem_cons, List.not_mem_nil, or_false] at hin
      rcases hin with rfl | rfl
      · rw [hw] at hstop
        cases hstop
      · rw [hm] at hstop
        cases hstop
    refine (hsound.run hdir (.inl hkind) hcopies (fun r' hr' => ?_) fun r' hr' => ?_).2 hkind hw hm
      hsome
    · rcases List.mem_append.mp hr' with hr' | hr'
      · exact hyears r' hr'
      · rw [List.mem_singleton.mp hr']
        exact hyear
    · rcases List.mem_append.mp hr' with hr' | hr'
      · exact hpast r' hr'
      · rw [List.mem_singleton.mp hr']

/-- A run, its copy into the weekly tier stopped before it makes the directory. -/
def stoppedRun (s : Int) : RunInput :=
  { emptyRun s with faults := { copy := fun kind => if kind = .weekly then some ⟨0, none⟩ else none } }

/-- The disk after it. -/
def stoppedDisk : FileTree Bytes :=
  (runAt plainEngine (stoppedRun lastSecond).faults [] .daily (stoppedRun lastSecond).now .empty).disk

/-- The week is covered by the run of the next day. -/
theorem promotion_whole_next_day :
    PromotedWhole plainEngine ["backups"] [stoppedRun lastSecond] stoppedDisk ∧
      Covered (runAt plainEngine {} [] .daily (emptyRun firstSecond).now stoppedDisk).disk ["backups"]
        firstSecond := by
  have hcopies : (stoppedRun lastSecond).CopiesWhole := by
    intro kind hkind stop hstop
    simp only [List.mem_cons, List.not_mem_nil, or_false] at hkind
    rcases hkind with rfl | rfl
    · cases hstop
      rfl
    · cases hstop
  have hrun : Run (Runs plainEngine) (fun disk r => Callers disk r ∧ r.CopiesWhole) .empty
      [stoppedRun lastSecond] stoppedDisk :=
    .snoc .nil ⟨.inl rfl, hcopies⟩ rfl
  obtain ⟨hwhole, hcovers⟩ := promotion_whole (e := plainEngine) rfl
    (emptyFolder_empty (by decide)) hrun (by decide)
    (by decide)
  exact ⟨hwhole, hcovers (emptyRun firstSecond) rfl (by decide) (by decide) rfl rfl
    (by decide +kernel)⟩

/-- A run, its copy into the weekly tier stopped after it has made the directory. -/
def tornRun (s : Int) : RunInput :=
  { emptyRun s with faults := { copy := fun kind => if kind = .weekly then some ⟨1, none⟩ else none } }

/-- The disk after it, and after the run of the next day. -/
def tornDisk : FileTree Bytes :=
  (runAt plainEngine (tornRun lastSecond).faults [] .daily (tornRun lastSecond).now .empty).disk

def laterDisk : FileTree Bytes :=
  (runAt plainEngine {} [] .daily (emptyRun firstSecond).now tornDisk).disk

/-- **A copy that stops there leaves an empty snapshot**, and the next run of the week takes
it for the snapshot of the week. -/
theorem promotion_torn :
    Run (Runs plainEngine) Callers .empty [tornRun lastSecond] tornDisk ∧
    ¬ PromotedWhole plainEngine ["backups"] [tornRun lastSecond] tornDisk ∧
    Run (Runs plainEngine) Callers .empty [tornRun lastSecond, emptyRun firstSecond] laterDisk ∧
    ¬ PromotedWhole plainEngine ["backups"] [tornRun lastSecond, emptyRun firstSecond] laterDisk := by
  have hfirst : Run (Runs plainEngine) Callers .empty [tornRun lastSecond] tornDisk :=
    .snoc .nil (.inl rfl) rfl
  have hnot : ∀ {es disk}, tierSnapshots disk ["backups"] .weekly = .ok [stampName lastSecond] →
      disk.readFile (snapshotDir ["backups"] .weekly (stampName lastSecond) ++ [manifestName]) =
        none → ¬ PromotedWhole plainEngine ["backups"] es disk := by
    intro es disk hlisted hmissing hwhole
    obtain ⟨r, -, -, -, ⟨data, -, hcontent⟩, -⟩ := hwhole .weekly List.mem_cons_self _ hlisted _
      List.mem_cons_self
    have hmanifest := hcontent [manifestName]
    rw [hmissing, contentOf, if_pos rfl] at hmanifest
    cases hmanifest
  have hlist : ∀ {res : Except Err (List String)} {names : List String},
      res.toOption = some names → res = .ok names := by
    intro res names h
    cases res with
    | error _ => cases h
    | ok _ => rw [Option.some.inj h]
  refine ⟨hfirst, hnot (hlist (by decide +kernel)) (by decide +kernel),
    .snoc hfirst (.inl rfl) rfl, hnot (hlist (by decide +kernel)) (by decide +kernel)⟩

end FusionLocalServer.Backup
