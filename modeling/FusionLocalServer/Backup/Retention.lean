import FusionLocalServer.Backup.Tiers
import FusionLocalServer.Lib.Retention
import FusionLocalServer.Lib.Run

/-!
# What the ladder keeps

The daily tier holds the newest seven runs, the weekly tier the first run of each of the
last four ISO weeks that had one, and the monthly tier the first run of each of the last
twelve months that had one. The engine sees only the names in its folder; that it can tell
from them whether a period is covered is what retention in general comes to.
-/

namespace FusionLocalServer.Backup

open Lib

variable {e : Engine} {faults : Faults} {disk disk' : FileTree Bytes} {dir : Path}
  {sources : List Source} {kind : Kind} {now : Time} {name : String}

/-- What a run is given. -/
structure RunInput where
  kind : Kind := .daily
  now : Time
  sources : List Source
  faults : Faults := {}

/-- The second a run is made in. -/
def RunInput.second (r : RunInput) : Int := secondOf r.now

/-- A run that ends without an error. -/
def Succeeds (e : Engine) (disk : FileTree Bytes) (r : RunInput) (disk' : FileTree Bytes) : Prop :=
  (runAt e r.faults r.sources r.kind r.now disk).disk = disk' ∧
    (runAt e r.faults r.sources r.kind r.now disk).err = none

/-- The runs whoever uses the engine makes; the two other tiers are filled by promotion. -/
def Callers (_ : FileTree Bytes) (r : RunInput) : Prop :=
  r.kind = .daily ∨ r.kind = .manual ∨ r.kind = .preRestore

/-- Nothing lies in a folder, should it exist. -/
def EmptyFolder (disk : FileTree Bytes) (dir : Path) : Prop :=
  ∀ q, dir <+: q → q ≠ dir → disk.get q = none

theorem emptyFolder_empty (h : dir ≠ []) : EmptyFolder .empty dir := by
  intro q hq _
  refine if_neg ?_
  rintro rfl
  exact h (List.prefix_nil.mp hq)

/-- The name of a snapshot taken in a second. -/
def stampName (s : Int) : String := String.ofList (formatStamp s)

/-- The seconds of the daily runs, the newest first. -/
def dailySeconds (es : List RunInput) : List Int :=
  ((es.filter fun r => r.kind = .daily).map RunInput.second).reverse

/-! ## A tier with its snapshots -/

/-- A tier holds snapshot directories of the names given, and nothing else. -/
structure Holds (disk : FileTree Bytes) (dir : Path) (kind : Kind) (names : List String) :
    Prop where
  clear : disk.readFile (dir ++ [kind.text]) = none
  entry : ∀ name,
    disk.get (snapshotDir dir kind name) = if name ∈ names then some .dir else none

variable {names : List String} {ts : List Int}

/-- A snapshot directory does not lie above or at a tier. -/
theorem snapshotDir_not_isPrefix_tier {kind' : Kind} :
    ¬ snapshotDir dir kind name <+: dir ++ [kind'.text] := by
  intro hpre
  have hlen := hpre.length_le
  rw [snapshotDir, List.length_append, List.length_append] at hlen
  exact absurd hlen (by simp)

/-- What happens to a snapshot of one tier leaves the others alone. -/
theorem Holds.of_changes {kind' : Kind} (h : Holds disk dir kind names) (hkind : kind ≠ kind')
    (hchanges : FileTree.ChangesBelow (snapshotDir dir kind' name) disk disk') :
    Holds disk' dir kind names where
  clear := by
    rw [hchanges.readFile_eq snapshotDir_not_isPrefix_tier]
    exact h.clear
  entry n := by
    have hne : snapshotDir dir kind' name ≠ snapshotDir dir kind n := fun heq =>
      hkind (snapshotDir_injective heq).1.symm
    rw [get_snapshotDir_of_changes hchanges hne]
    exact h.entry n

/-- A tier with one snapshot more. -/
theorem Holds.add (h : Holds disk dir kind names)
    (hchanges : FileTree.ChangesBelow (snapshotDir dir kind name) disk disk')
    (hdir : disk'.get (snapshotDir dir kind name) = some .dir) :
    Holds disk' dir kind (name :: names) where
  clear := by
    rw [hchanges.readFile_eq snapshotDir_not_isPrefix_tier]
    exact h.clear
  entry n := by
    by_cases heq : n = name
    · rw [heq, hdir, if_pos List.mem_cons_self]
    · have hne : snapshotDir dir kind name ≠ snapshotDir dir kind n := fun hc =>
        heq (snapshotDir_injective hc).2.symm
      rw [get_snapshotDir_of_changes hchanges hne, h.entry n]
      simp only [List.mem_cons, heq, false_or]

theorem parseTS_stampName {s : Int} (h : InYears s) : parseTS (stampName s) = some s := by
  rw [parseTS, stampName, String.toList_ofList, List.take_of_length_le
    (Nat.le_of_eq (length_formatStamp h.1 h.2)), parseStamp_formatStamp h.1 h.2]

theorem pairwise_stampName (hsorted : ts.Pairwise (· > ·)) (hyears : ∀ s ∈ ts, InYears s) :
    (ts.map stampName).Pairwise (· > ·) := by
  rw [List.pairwise_map]
  refine hsorted.imp_of_mem fun {a b} ha hb hlt => ?_
  exact lt_of_parseTS (parseTS_stampName (hyears b hb)) (parseTS_stampName (hyears a ha)) hlt

/-- A tier of known seconds is listed as their names. -/
theorem Holds.listed (h : Holds disk dir kind (ts.map stampName)) (hsorted : ts.Pairwise (· > ·))
    (hyears : ∀ s ∈ ts, InYears s) : tierSnapshots disk dir kind = .ok (ts.map stampName) := by
  refine tierSnapshots_eq h.clear (pairwise_stampName hsorted hyears) fun n => ?_
  rw [h.entry]
  constructor
  · intro hn
    obtain ⟨s, hs, rfl⟩ := List.mem_map.mp hn
    rw [if_pos hn, parseTS_stampName (hyears s hs)]
    exact ⟨rfl, rfl⟩
  · rintro ⟨hdir, -⟩
    by_contra hn
    rw [if_neg hn] at hdir
    cases hdir

/-- Whether a tier has a snapshot of a period shows in the seconds. -/
theorem Holds.tierHas_eq (h : Holds disk dir kind (ts.map stampName))
    (hsorted : ts.Pairwise (· > ·)) (hyears : ∀ s ∈ ts, InYears s) (same : Int → Bool) :
    tierHas disk dir kind same = .ok (ts.any same) := by
  have hany : (ts.map stampName).any (fun n => (parseTS n).any same) = ts.any same := by
    rw [List.any_map, Bool.eq_iff_iff, List.any_eq_true, List.any_eq_true]
    refine exists_congr fun s => and_congr_right fun hs => ?_
    rw [Function.comp, parseTS_stampName (hyears s hs), Option.any_some]
  rw [tierHas, h.listed hsorted hyears]
  exact congrArg Except.ok hany

/-- Pruning keeps the newest names. -/
theorem Holds.prune {keep : Nat} (h : Holds disk dir kind (ts.map stampName))
    (hsorted : ts.Pairwise (· > ·)) (hyears : ∀ s ∈ ts, InYears s) :
    (pruneTier dir kind keep disk).2 = none ∧
      Holds (pruneTier dir kind keep disk).1 dir kind ((ts.take keep).map stampName) := by
  obtain ⟨hok, hget⟩ := pruneTier_spec (h.listed hsorted hyears)
  refine ⟨hok, ⟨?_, fun n => ?_⟩⟩
  · unfold FileTree.readFile
    rw [hget, if_neg]
    · exact h.clear
    · rintro ⟨n, -, hpre⟩
      exact snapshotDir_not_isPrefix_tier hpre
  · have hdistinct := (pairwise_stampName hsorted hyears).imp fun {a b} hgt => ne_of_gt hgt
    rw [hget, h.entry, List.map_take]
    rw [← List.take_append_drop keep (ts.map stampName)] at hdistinct
    have hapart := (List.pairwise_append.mp hdistinct).2.2
    by_cases hn : n ∈ (ts.map stampName).drop keep
    · have hgone : n ∉ (ts.map stampName).take keep := fun hmem => hapart n hmem n hn rfl
      rw [if_pos ⟨n, hn, List.prefix_refl _⟩, if_neg hgone]
    · have hstays : ¬ ∃ name ∈ (ts.map stampName).drop keep,
          snapshotDir dir kind name <+: snapshotDir dir kind n := by
        rintro ⟨name, hname, hpre⟩
        by_cases heq : name = n
        · exact hn (heq ▸ hname)
        · have hne : snapshotDir dir kind name ≠ snapshotDir dir kind n := fun hc =>
            heq (snapshotDir_injective hc).2
          exact snapshotDir_not_isPrefix_self hne hpre
      rw [if_neg hstays]
      have hmem : n ∈ ts.map stampName ↔ n ∈ (ts.map stampName).take keep := by
        constructor
        · intro hall
          rw [← List.take_append_drop keep (ts.map stampName)] at hall
          exact (List.mem_append.mp hall).resolve_right hn
        · exact fun htake => List.mem_of_mem_take htake
      simp only [hmem]

/-- Pruning one tier leaves the others alone. -/
theorem Holds.prune_other {kind' : Kind} {listing : List String}
    (h : Holds disk dir kind names) (keep : Nat) (hkind : kind ≠ kind')
    (hlisting : tierSnapshots disk dir kind' = .ok listing) :
    Holds (pruneTier dir kind' keep disk).1 dir kind names := by
  obtain ⟨-, hget⟩ := pruneTier_spec hlisting
  constructor
  · unfold FileTree.readFile
    rw [hget, if_neg]
    · exact h.clear
    · rintro ⟨n, -, hpre⟩
      exact snapshotDir_not_isPrefix_tier hpre
  · intro n
    rw [hget, if_neg]
    · exact h.entry n
    · rintro ⟨name, -, hpre⟩
      have hne : snapshotDir dir kind' name ≠ snapshotDir dir kind n := fun hc =>
        hkind (snapshotDir_injective hc).1.symm
      exact snapshotDir_not_isPrefix_self hne hpre

/-! ## A run -/

/-- What promoting into a tier makes of it: the newest daily snapshot is added when the tier
has none of the period. -/
theorem Holds.promote {s : Int} {same : Int → Bool} (h : Holds disk dir kind (ts.map stampName))
    (hsorted : ts.Pairwise (· > ·)) (hyears : ∀ u ∈ ts, InYears u)
    (hrun : promoteTo faults dir kind (stampName s) same disk = (disk', none)) :
    Holds disk' dir kind ((if ts.any same then ts else s :: ts).map stampName) ∧
      ∀ kind' names, kind' ≠ kind → Holds disk dir kind' names → Holds disk' dir kind' names := by
  have hhas := h.tierHas_eq hsorted hyears same
  rcases promoteTo_cases hrun with ⟨_, _, _, herr⟩ | ⟨hcovered, rfl, -⟩ | ⟨hnone, ok, hcopy, hok⟩
  · cases herr
  · have hany := Except.ok.inj (hhas.symm.trans hcovered)
    rw [if_pos hany]
    exact ⟨h, fun _ _ _ h' => h'⟩
  · have hany := Except.ok.inj (hhas.symm.trans hnone)
    have hchanges := copyDir_changes (snapshotDir dir .daily (stampName s))
      (snapshotDir dir kind (stampName s)) (faults.copy kind) disk
    rw [hcopy] at hchanges
    rw [hok.mp rfl] at hcopy
    rw [hany, if_neg Bool.false_ne_true]
    exact ⟨h.add hchanges (copyDir_true hcopy).2, fun _ _ hkind h' => h'.of_changes hkind hchanges⟩

/-- The folder after the daily runs of the seconds given, the newest first. -/
structure Ladder (disk : FileTree Bytes) (dir : Path) (ts : List Int) : Prop where
  daily : Holds disk dir .daily ((ts.take keepDaily).map stampName)
  weekly : Holds disk dir .weekly ((retain keepWeekly weekOf ts).map stampName)
  monthly : Holds disk dir .monthly ((retain keepMonthly monthOf ts).map stampName)

theorem Ladder.nil (h : EmptyFolder disk dir) : Ladder disk dir [] := by
  have hnone : ∀ kind, Holds disk dir kind [] := by
    intro kind
    constructor
    · unfold FileTree.readFile
      rw [h _ (List.prefix_append ..) (append_ne_self (List.cons_ne_nil _ _))]
    · intro n
      rw [if_neg List.not_mem_nil]
      exact h _ (List.prefix_append ..) (append_ne_self (List.cons_ne_nil _ _))
  exact ⟨hnone _, hnone _, hnone _⟩

/-- A snapshot of a tier outside the ladder leaves the ladder. -/
theorem Ladder.of_changes (h : Ladder disk dir ts) (hkind : kind = .manual ∨ kind = .preRestore)
    (hchanges : FileTree.ChangesBelow (snapshotDir dir kind name) disk disk') :
    Ladder disk' dir ts := by
  rcases hkind with rfl | rfl
  · exact ⟨h.daily.of_changes (by decide) hchanges, h.weekly.of_changes (by decide) hchanges,
      h.monthly.of_changes (by decide) hchanges⟩
  · exact ⟨h.daily.of_changes (by decide) hchanges, h.weekly.of_changes (by decide) hchanges,
      h.monthly.of_changes (by decide) hchanges⟩

/-- Pruning keeps the newest of each tier. -/
theorem prune_holds {ds ws ms : List Int} (hd : Holds disk dir .daily (ds.map stampName))
    (hw : Holds disk dir .weekly (ws.map stampName)) (hm : Holds disk dir .monthly (ms.map stampName))
    (hsorted : ds.Pairwise (· > ·) ∧ ws.Pairwise (· > ·) ∧ ms.Pairwise (· > ·))
    (hyears : ∀ s, s ∈ ds ∨ s ∈ ws ∨ s ∈ ms → InYears s) :
    (prune dir disk).2 = none ∧
      Holds (prune dir disk).1 dir .daily ((ds.take keepDaily).map stampName) ∧
      Holds (prune dir disk).1 dir .weekly ((ws.take keepWeekly).map stampName) ∧
      Holds (prune dir disk).1 dir .monthly ((ms.take keepMonthly).map stampName) := by
  have hyd : ∀ s ∈ ds, InYears s := fun s hs => hyears s (.inl hs)
  have hyw : ∀ s ∈ ws, InYears s := fun s hs => hyears s (.inr (.inl hs))
  have hym : ∀ s ∈ ms, InYears s := fun s hs => hyears s (.inr (.inr hs))
  have hlist := hd.listed hsorted.1 hyd
  obtain ⟨hok₁, hd₁⟩ := hd.prune hsorted.1 hyd
  have hw₁ := hw.prune_other keepDaily (by decide) hlist
  have hm₁ := hm.prune_other keepDaily (by decide) hlist
  unfold FusionLocalServer.Backup.prune
  generalize pruneTier dir .daily keepDaily disk = out₁ at *
  obtain ⟨disk₁, err₁⟩ := out₁
  obtain rfl : err₁ = none := hok₁
  have hlist := hw₁.listed hsorted.2.1 hyw
  obtain ⟨hok₂, hw₂⟩ := hw₁.prune hsorted.2.1 hyw
  have hd₂ := hd₁.prune_other keepWeekly (by decide) hlist
  have hm₂ := hm₁.prune_other keepWeekly (by decide) hlist
  dsimp only
  generalize pruneTier dir .weekly keepWeekly disk₁ = out₂ at *
  obtain ⟨disk₂, err₂⟩ := out₂
  obtain rfl : err₂ = none := hok₂
  have hlist := hm₂.listed hsorted.2.2 hym
  obtain ⟨hok₃, hm₃⟩ := hm₂.prune hsorted.2.2 hym
  exact ⟨hok₃, hd₂.prune_other keepMonthly (by decide) hlist,
    hw₂.prune_other keepMonthly (by decide) hlist, hm₃⟩

/-- The periods are stretches of time. -/
theorem stretches_weekOf (ts : List Int) : Stretches weekOf ts := fun _ _ _ _ _ _ hab hbc h =>
  isoWeek_between (Int.ediv_le_ediv (by decide) hab) (Int.ediv_le_ediv (by decide) hbc) h

theorem dayOf_range {s : Int} (h : InYears s) : 0 ≤ dayOf s ∧ dayOf s < endOfYears := by
  obtain ⟨hlo, hhi⟩ := h
  have hend : endOfStamps = endOfYears * 86400 := rfl
  have hday : dayOf s = s / 86400 := rfl
  rw [hday]
  omega

theorem stretches_monthOf (hyears : ∀ s ∈ ts, InYears s) : Stretches monthOf ts :=
  fun a ha _ _ c hc hab hbc h =>
    formatMonth_between (dayOf_range (hyears a ha)).1 (dayOf_range (hyears c hc)).2
      (Int.ediv_le_ediv (by decide) hab) (Int.ediv_le_ediv (by decide) hbc) h

/-- Adding to what is retained and cutting to its number retains. -/
theorem take_retain {β : Type} [DecidableEq β] {key : Int → β} {n : Nat} (hn : 0 < n) {s : Int}
    (hper : Stretches key (s :: ts)) (hsorted : (s :: ts).Pairwise (· > ·)) :
    (if (retain n key ts).any (fun u => key u = key s) then retain n key ts
      else s :: retain n key ts).take n = retain n key (s :: ts) := by
  rw [retain_cons hn hper hsorted]
  split
  · rw [retain, List.take_take, Nat.min_self]
  · rfl

/-- **A daily run climbs the ladder.** -/
theorem Ladder.step {m : Option Manifest} (h : Ladder disk dir ts) (hdir : e.dir = some dir)
    (hsorted : (secondOf now :: ts).Pairwise (· > ·))
    (hyears : ∀ s ∈ secondOf now :: ts, InYears s)
    (hrun : runAt e faults sources .daily now disk = ⟨disk', m, none⟩) :
    Ladder disk' dir (secondOf now :: ts) := by
  have hnow := hyears _ List.mem_cons_self
  have htsorted := (List.pairwise_cons.mp hsorted).2
  have htyears : ∀ s ∈ ts, InYears s := fun s hs => hyears s (List.mem_cons_of_mem _ hs)
  -- its name is free
  have hfree : disk.get (snapshotDir dir .daily (formatTS now)) = none := by
    rw [h.daily.entry, if_neg]
    intro hmem
    obtain ⟨u, hu, heq⟩ := List.mem_map.mp hmem
    have hu := List.mem_of_mem_take hu
    have hread := parseTS_stampName (htyears u hu)
    rw [heq, parseTS_formatTS hnow] at hread
    have hlt := (List.pairwise_cons.mp hsorted).1 u hu
    rw [Option.some.inj hread] at hlt
    exact absurd hlt (lt_irrefl u)
  have hclean : Path.IsClean (snapshotDir dir .daily (formatTS now)) :=
    snapshotDir_clean (e.clean dir hdir) .daily now 0
  unfold runAt at hrun
  rw [hdir] at hrun
  dsimp only at hrun
  rw [newSnapshotDir_of_free hfree] at hrun
  obtain ⟨hchanges, hok, -⟩ := takeSnapshot_spec e faults sources .daily now hclean hfree
  split at hrun
  · cases hrun
  · next taken m' htaken =>
    rw [htaken] at hchanges hok
    obtain ⟨-, hwhole⟩ := hok _ rfl
    have hd : Holds taken dir .daily ((secondOf now :: ts.take keepDaily).map stampName) :=
      h.daily.add hchanges hwhole.dir
    have hw := h.weekly.of_changes (by decide) hchanges
    have hm := h.monthly.of_changes (by decide) hchanges
    have hsub : (secondOf now :: ts.take keepDaily).Sublist (secondOf now :: ts) :=
      (List.take_sublist _ _).cons_cons _
    have hnewest : newestSnapshot taken dir .daily = some (stampName (secondOf now)) := by
      rw [newestSnapshot, hd.listed (hsorted.sublist hsub) fun s hs => hyears s (hsub.subset hs)]
      rfl
    rw [if_pos rfl, promote, hnewest] at hrun
    dsimp only at hrun
    -- what is retained is of the runs before
    have hws := retain_sublist weekOf keepWeekly ts
    have hms := retain_sublist monthOf keepMonthly ts
    have hwsorted := htsorted.sublist hws
    have hmsorted := htsorted.sublist hms
    have hwyears : ∀ s ∈ retain keepWeekly weekOf ts, InYears s := fun s hs =>
      htyears s (hws.subset hs)
    have hmyears : ∀ s ∈ retain keepMonthly monthOf ts, InYears s := fun s hs =>
      htyears s (hms.subset hs)
    cases hweek : promoteTo faults dir .weekly (stampName (secondOf now))
        (fun s => weekOf s = weekOf (secondOf now)) taken with
    | mk disk₁ err₁ =>
    rw [hweek] at hrun
    cases err₁ with
    | some err => cases hrun
    | none =>
    obtain ⟨hw₁, hother₁⟩ := hw.promote hwsorted hwyears hweek
    cases hmonth : promoteTo faults dir .monthly (stampName (secondOf now))
        (fun s => monthOf s = monthOf (secondOf now)) disk₁ with
    | mk disk₂ err₂ =>
    dsimp only at hrun
    rw [hmonth] at hrun
    cases err₂ with
    | some err => cases hrun
    | none =>
    obtain ⟨hm₂, hother₂⟩ := (hother₁ _ _ (by decide) hm).promote hmsorted hmyears hmonth
    have hd₂ := hother₂ _ _ (by decide) (hother₁ _ _ (by decide) hd)
    have hw₂ := hother₂ _ _ (by decide) hw₁
    have hcut : ∀ {β : Type} [DecidableEq β] (key : Int → β) (n : Nat),
        (if (retain n key ts).any (fun u => key u = key (secondOf now)) then retain n key ts
          else secondOf now :: retain n key ts).Sublist (secondOf now :: ts) := by
      intro β _ key n
      split
      · exact (retain_sublist _ n ts).cons _
      · exact (retain_sublist _ n ts).cons_cons _
    obtain ⟨-, hd₃, hw₃, hm₃⟩ := prune_holds hd₂ hw₂ hm₂
      ⟨hsorted.sublist hsub, hsorted.sublist (hcut weekOf keepWeekly),
        hsorted.sublist (hcut monthOf keepMonthly)⟩
      (by
        rintro s (hs | hs | hs)
        · exact hyears s (hsub.subset hs)
        · exact hyears s ((hcut weekOf keepWeekly).subset hs)
        · exact hyears s ((hcut monthOf keepMonthly).subset hs))
    rw [take_retain (by decide) (stretches_weekOf _) hsorted] at hw₃
    rw [take_retain (by decide) (stretches_monthOf hyears) hsorted] at hm₃
    rw [← (Outcome.mk.inj hrun).1]
    refine ⟨?_, hw₃, hm₃⟩
    have htake : (secondOf now :: ts.take keepDaily).take keepDaily =
        (secondOf now :: ts).take keepDaily := by
      rw [keepDaily, List.take_succ_cons, List.take_succ_cons, List.take_take]
      rfl
    rw [htake] at hd₃
    exact hd₃

/-- A run outside the ladder leaves it. -/
theorem Ladder.other {m : Option Manifest} (h : Ladder disk dir ts) (hdir : e.dir = some dir)
    (hkind : kind = .manual ∨ kind = .preRestore)
    (hrun : runAt e faults sources kind now disk = ⟨disk', m, none⟩) : Ladder disk' dir ts := by
  obtain ⟨i, hname, hfresh⟩ := newSnapshotDir_spec disk dir kind now
  have hclean := snapshotDir_clean (e.clean dir hdir) kind now i
  unfold runAt at hrun
  rw [hdir] at hrun
  dsimp only at hrun
  rw [hname] at hrun hfresh
  obtain ⟨hchanges, -, -⟩ := takeSnapshot_spec e faults sources kind now hclean hfresh
  split at hrun
  · cases hrun
  · next htaken =>
    rw [htaken] at hchanges
    have hladder : kind ≠ .daily := by
      rintro rfl
      rcases hkind with h | h <;> cases h
    rw [if_neg hladder] at hrun
    rw [← (Outcome.mk.inj hrun).1]
    exact h.of_changes hkind hchanges

/-! ## All runs -/

/-- What the tiers hold after the daily runs of the seconds given, the newest first. -/
structure Retained (disk : FileTree Bytes) (dir : Path) (ts : List Int) : Prop where
  daily : tierSnapshots disk dir .daily = .ok ((ts.take 7).map stampName)
  weekly : tierSnapshots disk dir .weekly = .ok (((firsts weekOf ts).take 4).map stampName)
  monthly : tierSnapshots disk dir .monthly = .ok (((firsts monthOf ts).take 12).map stampName)
  nothing_else : ∀ kind ∈ [Kind.daily, .weekly, .monthly], ∀ names,
    tierSnapshots disk dir kind = .ok names →
      ∀ name, name ∈ disk.children (dir ++ [kind.text]) → name ∈ names
  one_a_week : ((firsts weekOf ts).take 4).Pairwise fun s u => weekOf s ≠ weekOf u
  one_a_month : ((firsts monthOf ts).take 12).Pairwise fun s u => monthOf s ≠ monthOf u

theorem Ladder.retained (h : Ladder disk dir ts) (hsorted : ts.Pairwise (· > ·))
    (hyears : ∀ s ∈ ts, InYears s) : Retained disk dir ts := by
  have hlisted : ∀ {kind : Kind} {us : List Int}, us.Sublist ts → Holds disk dir kind (us.map stampName) →
      tierSnapshots disk dir kind = .ok (us.map stampName) := fun hsub hholds =>
    hholds.listed (hsorted.sublist hsub) fun s hs => hyears s (hsub.subset hs)
  have hd := hlisted (List.take_sublist _ _) h.daily
  have hw := hlisted (retain_sublist _ _ _) h.weekly
  have hm := hlisted (retain_sublist _ _ _) h.monthly
  have honly : ∀ {kind : Kind} {names : List String}, Holds disk dir kind names → ∀ name,
      name ∈ disk.children (dir ++ [kind.text]) → name ∈ names := by
    intro kind names hholds name hname
    have hget := FileTree.mem_children.mp hname
    rw [List.append_assoc] at hget
    by_contra hnot
    exact hget ((hholds.entry name).trans (if_neg hnot))
  refine ⟨hd, hw, hm, ?_, ?_, ?_⟩
  · intro kind hkind names hnames
    simp only [List.mem_cons, List.not_mem_nil, or_false] at hkind
    rcases hkind with rfl | rfl | rfl
    · exact Except.ok.inj (hd.symm.trans hnames) ▸ honly h.daily
    · exact Except.ok.inj (hw.symm.trans hnames) ▸ honly h.weekly
    · exact Except.ok.inj (hm.symm.trans hnames) ▸ honly h.monthly
  · exact (firsts_pairwise ts).sublist (List.take_sublist _ _)
  · exact (firsts_pairwise ts).sublist (List.take_sublist _ _)

theorem dailySeconds_snoc (es : List RunInput) (r : RunInput) :
    dailySeconds (es ++ [r]) =
      if r.kind = .daily then r.second :: dailySeconds es else dailySeconds es := by
  unfold dailySeconds
  rw [List.filter_append, List.map_append, List.reverse_append]
  by_cases hkind : r.kind = .daily
  · simp [hkind]
  · simp [hkind]

theorem mem_dailySeconds {es : List RunInput} {s : Int} (h : s ∈ dailySeconds es) :
    ∃ r ∈ es, r.second = s := by
  obtain ⟨r, hr, hs⟩ := List.mem_map.mp (List.mem_reverse.mp h)
  exact ⟨r, (List.mem_filter.mp hr).1, hs⟩

theorem dailySeconds_sorted {es : List RunInput} (h : (es.map RunInput.second).Pairwise (· < ·)) :
    (dailySeconds es).Pairwise (· > ·) := by
  unfold dailySeconds
  rw [List.pairwise_reverse]
  exact h.sublist (List.filter_sublist.map _)

/-- **Retention.** However often the engine is run, the tiers hold the newest seven runs, the
first of each of the last four ISO weeks that had one, and the first of each of the last
twelve months that had one. -/
theorem retention {es : List RunInput} (hdir : e.dir = some dir) (hempty : EmptyFolder disk dir)
    (hrun : Run (Succeeds e) Callers disk es disk')
    (htimes : (es.map RunInput.second).Pairwise (· < ·))
    (hyears : ∀ r ∈ es, InYears r.second) : Retained disk' dir (dailySeconds es) := by
  have hladder : Ladder disk' dir (dailySeconds es) := by
    induction hrun with
    | nil => exact .nil hempty
    | @snoc es t u r hrun hcaller hstep ih =>
      rw [List.map_append, List.pairwise_append] at htimes
      have hpast := ih htimes.1 fun r' hr' => hyears r' (List.mem_append_left _ hr')
      obtain ⟨hdisk, herr⟩ := hstep
      have hout : runAt e r.faults r.sources r.kind r.now t =
          ⟨u, (runAt e r.faults r.sources r.kind r.now t).manifest, none⟩ := by
        rw [← hdisk, ← herr]
      rw [dailySeconds_snoc]
      by_cases hkind : r.kind = .daily
      · rw [if_pos hkind]
        rw [hkind] at hout
        refine hpast.step hdir (List.pairwise_cons.mpr ⟨fun s hs => ?_, dailySeconds_sorted htimes.1⟩)
          (fun s hs => ?_) hout
        · obtain ⟨r', hr', rfl⟩ := mem_dailySeconds hs
          exact htimes.2.2 _ (List.mem_map_of_mem hr') _ List.mem_cons_self
        · rcases List.mem_cons.mp hs with rfl | hs
          · exact hyears r (List.mem_append_right _ List.mem_cons_self)
          · obtain ⟨r', hr', rfl⟩ := mem_dailySeconds hs
            exact hyears r' (List.mem_append_left _ hr')
      · rw [if_neg hkind]
        exact hpast.other hdir (hcaller.resolve_left hkind) hout
  refine hladder.retained (dailySeconds_sorted htimes) fun s hs => ?_
  obtain ⟨r, hr, rfl⟩ := mem_dailySeconds hs
  exact hyears r hr

/-- An engine for a folder at the root, and a run over no files. -/
def plainEngine : Engine where
  dir := some ["backups"]
  clean := by
    rintro d ⟨⟩
    decide

def emptyRun (s : Int) : RunInput where
  now := s * nanosPerSecond
  sources := []

/-- The disk after empty runs. -/
def diskAfter (ss : List Int) : FileTree Bytes :=
  ss.foldl (fun disk s => (runAt plainEngine {} [] .daily (emptyRun s).now disk).disk) .empty

/-- The last day of 2026 and the first of 2027, of one ISO week and two months. -/
def lastSecond : Int := dayOfDate 2026 12 31 * 86400 + 12600
def firstSecond : Int := dayOfDate 2027 1 1 * 86400 + 12600

theorem retention_new_year :
    Retained (diskAfter [lastSecond, firstSecond]) ["backups"] [firstSecond, lastSecond] := by
  have hstep : ∀ ss s, (runAt plainEngine {} [] .daily (emptyRun s).now (diskAfter ss)).err = none →
      Succeeds plainEngine (diskAfter ss) (emptyRun s) (diskAfter (ss ++ [s])) := by
    intro ss s herr
    refine ⟨?_, herr⟩
    unfold diskAfter
    rw [List.foldl_append]
    rfl
  have hrun : Run (Succeeds plainEngine) Callers .empty [emptyRun lastSecond, emptyRun firstSecond]
      (diskAfter [lastSecond, firstSecond]) :=
    .snoc (.snoc .nil (.inl rfl) (hstep [] lastSecond (by decide +kernel))) (.inl rfl)
      (hstep [lastSecond] firstSecond (by decide +kernel))
  exact retention (e := plainEngine) rfl (emptyFolder_empty (by decide)) hrun (by decide) (by decide)

end FusionLocalServer.Backup
