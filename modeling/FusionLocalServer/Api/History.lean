import FusionLocalServer.Api.Values
import FusionLocalServer.Lib.SortOn

/-!
# The history of a design

The rows of a design's history (`GetItemHistory` in `api/history.go`): its saves, the changes that
made no version, and the markers of milestones and releases, each of which decorates a save. Saves
and changes are put newest first. The markers are applied one after the other as the rows come, and
a later one overwrites what an earlier one wrote.

- `savesOf_perm` and `changesOf_perm`: what is sorted does not depend on the order of the rows.
- `history_perm_iff` is when the whole history does not.
-/

namespace FusionLocalServer.Api

open Lib

structure RawChange where
  typename : String
  timestamp : String
  description : String := ""
  author : ApiUser := {}
deriving DecidableEq

/-- A change that made no version. -/
structure HistoryChange where
  type : String
  createdOn : Time
  createdBy : String
  createdByID : String
  comment : String
deriving DecidableEq

/-- A save with what the markers say of it. -/
structure HistorySave where
  createdOn : Time
  milestone : String := ""
  revision : String := ""
deriving DecidableEq

structure ItemHistory where
  changes : List HistoryChange
  saves : List HistorySave
deriving DecidableEq

structure Marker where
  instant : Time
  milestone : String := ""
  revision : String := ""
deriving DecidableEq

def isSaveChange (typename : String) : Bool :=
  "WrittenHistoryChange".toList.isSuffixOf typename.toList

def milestoneChange : String := "VersionCreatedHistoryChange"

def releaseChange : String := "RevisionCreatedHistoryChange"

/-- The names of the milestones that are made without being asked for begin so. -/
def autoMilestonePrefixes : List String := ["Milestone ", "Item Update"]

def isReleaseName (name : String) : Bool :=
  name ≠ "" && !autoMilestonePrefixes.any fun p => p.toList.isPrefixOf name.toList

/-- What the loop over the rows has put together. -/
structure Gathered where
  changes : List HistoryChange := []
  saves : List HistorySave := []
  markers : List Marker := []

section GetItemHistory

variable (parse : TimeParse)

def RawChange.instant (c : RawChange) : Time := parseTime parse c.timestamp

/-- One turn of the loop over the rows. -/
def Gathered.add (out : Gathered) (c : RawChange) : Gathered :=
  if isSaveChange c.typename then
    { out with saves := out.saves ++ [{ createdOn := c.instant parse }] }
  else if c.typename = milestoneChange then
    let revision := if isReleaseName c.description then c.description else ""
    let m : Marker := { instant := c.instant parse, milestone := c.description, revision }
    { out with markers := out.markers ++ [m] }
  else if c.typename = releaseChange then
    let m : Marker := { instant := c.instant parse, revision := c.description }
    { out with markers := out.markers ++ [m] }
  else
    let change : HistoryChange :=
      { type := c.typename
        createdOn := c.instant parse
        createdBy := c.author.fullName
        createdByID := c.author.id
        comment := c.description }
    { out with changes := out.changes ++ [change] }

/-- `sort.SliceStable` by the time, newest first. -/
def newestFirst {α : Type} (createdOn : α → Time) (l : List α) : List α :=
  sortOn (fun a => OrderDual.toDual (createdOn a)) l

/-- The save at exactly the instant, else the newest at or before it. -/
def saveIndexFor (saves : List HistorySave) (instant : Time) : Option Nat :=
  if instant = zeroTime then none
  else match saves.findIdx? (·.createdOn = instant) with
    | some i => some i
    | none => saves.findIdx? (·.createdOn ≤ instant)

def HistorySave.decorate (m : Marker) (s : HistorySave) : HistorySave :=
  { s with
    milestone := if m.milestone ≠ "" then m.milestone else s.milestone
    revision := if m.revision ≠ "" then m.revision else s.revision }

/-- One turn of the loop over the markers. -/
def mark (saves : List HistorySave) (m : Marker) : List HistorySave :=
  match saveIndexFor saves m.instant with
  | none => saves
  | some i => saves.modify i (·.decorate m)

/-- `GetItemHistory`, of what the walk over the pages of the history came back with. -/
def getItemHistory (all : Except String (List RawChange)) : Except String ItemHistory :=
  match all with
  | .error e => .error ("item history: " ++ e)
  | .ok rows =>
    let out := rows.foldl (Gathered.add parse) {}
    .ok
      { changes := newestFirst (·.createdOn) out.changes
        saves := out.markers.foldl mark (newestFirst (·.createdOn) out.saves) }

end GetItemHistory

/-! ## What each row is -/

section Rows

variable (parse : TimeParse)

def RawChange.save? (c : RawChange) : Option HistorySave :=
  if isSaveChange c.typename then some { createdOn := c.instant parse } else none

def RawChange.marker? (c : RawChange) : Option Marker :=
  if isSaveChange c.typename then none
  else if c.typename = milestoneChange then
    some
      { instant := c.instant parse
        milestone := c.description
        revision := if isReleaseName c.description then c.description else "" }
  else if c.typename = releaseChange then
    some { instant := c.instant parse, revision := c.description }
  else none

def RawChange.change? (c : RawChange) : Option HistoryChange :=
  if isSaveChange c.typename ∨ c.typename = milestoneChange ∨ c.typename = releaseChange then none
  else some
    { type := c.typename
      createdOn := c.instant parse
      createdBy := c.author.fullName
      createdByID := c.author.id
      comment := c.description }

variable {parse}

theorem Gathered.add_eq (out : Gathered) (c : RawChange) :
    out.add parse c =
      { changes := out.changes ++ (c.change? parse).toList
        saves := out.saves ++ (c.save? parse).toList
        markers := out.markers ++ (c.marker? parse).toList } := by
  unfold Gathered.add RawChange.change? RawChange.save? RawChange.marker?
  by_cases hsave : isSaveChange c.typename
  · simp [hsave]
  · by_cases hmilestone : c.typename = milestoneChange
    · simp [if_neg hsave, eq_true hmilestone]
    · by_cases hrelease : c.typename = releaseChange
      · simp [if_neg hsave, if_neg hmilestone, eq_true hrelease]
      · simp [hsave, hmilestone, hrelease]

theorem foldl_add (rows : List RawChange) (out : Gathered) :
    rows.foldl (Gathered.add parse) out =
      { changes := out.changes ++ rows.filterMap (·.change? parse)
        saves := out.saves ++ rows.filterMap (·.save? parse)
        markers := out.markers ++ rows.filterMap (·.marker? parse) } := by
  induction rows generalizing out with
  | nil => simp
  | cons c rows ih =>
    rw [List.foldl_cons, ih, Gathered.add_eq]
    simp only [List.append_assoc, List.filterMap_cons]
    cases c.change? parse <;> cases c.save? parse <;> cases c.marker? parse <;> simp

theorem RawChange.createdOn_save {c : RawChange} {s : HistorySave} (h : c.save? parse = some s) :
    s.createdOn = c.instant parse := by
  unfold RawChange.save? at h
  split at h
  · rw [← Option.some.inj h]
  · cases h

theorem RawChange.createdOn_change {c : RawChange} {x : HistoryChange}
    (h : c.change? parse = some x) : x.createdOn = c.instant parse := by
  unfold RawChange.change? at h
  split at h
  · cases h
  · rw [← Option.some.inj h]

theorem RawChange.instant_marker {c : RawChange} {m : Marker} (h : c.marker? parse = some m) :
    m.instant = c.instant parse := by
  unfold RawChange.marker? at h
  split at h
  · cases h
  · split at h
    · rw [← Option.some.inj h]
    · split at h
      · rw [← Option.some.inj h]
      · cases h

theorem RawChange.save_none_of_marker {c : RawChange} {m : Marker}
    (h : c.marker? parse = some m) : c.save? parse = none := by
  unfold RawChange.marker? at h
  unfold RawChange.save?
  split at h
  · cases h
  · next hsave => exact if_neg hsave

end Rows

/-! ## Which save a marker decorates -/

section Marks

variable {saves base : List HistorySave} {m m' : Marker} {t t' : Time}

/-- Both markers decorate one save: there is one at or before both, and none between them. -/
def SameSave (saves : List HistorySave) (m m' : Marker) : Prop :=
  m.instant ≠ zeroTime ∧ m'.instant ≠ zeroTime ∧
    (∃ s ∈ saves, s.createdOn ≤ m.instant ∧ s.createdOn ≤ m'.instant) ∧
    ∀ s ∈ saves, s.createdOn ≤ m.instant ↔ s.createdOn ≤ m'.instant

instance (saves : List HistorySave) (m m' : Marker) : Decidable (SameSave saves m m') :=
  inferInstanceAs (Decidable (_ ∧ _ ∧ _ ∧ _))

/-- What both of the markers name, they give the same name. -/
def Marker.Agrees (m m' : Marker) : Prop :=
  (m.milestone ≠ "" → m'.milestone ≠ "" → m.milestone = m'.milestone) ∧
    (m.revision ≠ "" → m'.revision ≠ "" → m.revision = m'.revision)

instance (m m' : Marker) : Decidable (m.Agrees m') := inferInstanceAs (Decidable (_ ∧ _))

theorem findIdx_congr {α : Type} {p q : α → Bool} {l : List α} (h : ∀ a ∈ l, p a = q a) :
    l.findIdx? p = l.findIdx? q := by
  induction l with
  | nil => rfl
  | cons a l ih =>
    rw [List.findIdx?_cons, List.findIdx?_cons, h a List.mem_cons_self,
      ih fun b hb => h b (List.mem_cons_of_mem a hb)]

theorem saveIndexFor_congr (h : saves.map (·.createdOn) = base.map (·.createdOn)) :
    saveIndexFor saves t = saveIndexFor base t := by
  have hfind : ∀ p : Time → Bool,
      saves.findIdx? (fun s => p s.createdOn) = base.findIdx? (fun s => p s.createdOn) := by
    intro p
    have := congrArg (List.findIdx? p) h
    rwa [List.findIdx?_map, List.findIdx?_map] at this
  unfold saveIndexFor
  rw [hfind (· = t), hfind (· ≤ t)]

/-- Among saves that are newest first the exact one is the newest at or before. -/
theorem saveIndexFor_eq (hsorted : saves.Pairwise fun a b => b.createdOn < a.createdOn)
    (ht : t ≠ zeroTime) : saveIndexFor saves t = saves.findIdx? (·.createdOn ≤ t) := by
  rw [saveIndexFor, if_neg ht]
  split
  · next i hexact =>
    obtain ⟨hi, heq, -⟩ := List.findIdx?_eq_some_iff_getElem.mp hexact
    have heq : saves[i].createdOn = t := of_decide_eq_true heq
    refine (List.findIdx?_eq_some_iff_getElem.mpr ⟨hi, by simp [heq], fun j hj => ?_⟩).symm
    -- what comes before the exact one is later
    have hlater := List.pairwise_iff_getElem.mp hsorted j i (hj.trans hi) hi hj
    simpa [heq] using hlater
  · rfl

/-- The save that is found is at or before the instant, with all that are older. -/
theorem createdOn_le_iff (hsorted : saves.Pairwise fun a b => b.createdOn < a.createdOn) {i j : Nat}
    (h : saves.findIdx? (·.createdOn ≤ t) = some i) (hj : j < saves.length) :
    saves[j].createdOn ≤ t ↔ i ≤ j := by
  obtain ⟨hi, hle, hbefore⟩ := List.findIdx?_eq_some_iff_getElem.mp h
  have hle : saves[i].createdOn ≤ t := of_decide_eq_true hle
  constructor
  · intro hjle
    exact Nat.not_lt.mp fun hji => hbefore j hji (decide_eq_true hjle)
  · intro hij
    rcases Nat.eq_or_lt_of_le hij with rfl | hlt
    · exact hle
    · exact (List.pairwise_iff_getElem.mp hsorted i j hi hj hlt).le.trans hle

theorem saveIndexFor_of_sameSave (hsorted : saves.Pairwise fun a b => b.createdOn < a.createdOn)
    (h : SameSave saves m m') : ∃ i < saves.length,
      saveIndexFor saves m.instant = some i ∧ saveIndexFor saves m'.instant = some i := by
  obtain ⟨ht, ht', ⟨s, hs, hle, -⟩, hiff⟩ := h
  have hsome : (saves.findIdx? (·.createdOn ≤ m.instant)).isSome := by
    rw [List.findIdx?_isSome]
    exact List.any_eq_true.mpr ⟨s, hs, decide_eq_true hle⟩
  obtain ⟨i, hi⟩ := Option.isSome_iff_exists.mp hsome
  obtain ⟨hlt, -⟩ := List.findIdx?_eq_some_iff_getElem.mp hi
  refine ⟨i, hlt, (saveIndexFor_eq hsorted ht).trans hi, ?_⟩
  rw [saveIndexFor_eq hsorted ht', ← hi]
  exact findIdx_congr fun s hs => decide_eq_decide.mpr (hiff s hs).symm

theorem sameSave_of_saveIndexFor (hsorted : saves.Pairwise fun a b => b.createdOn < a.createdOn)
    {i : Nat} (h : saveIndexFor saves m.instant = some i)
    (h' : saveIndexFor saves m'.instant = some i) : SameSave saves m m' := by
  have hne : ∀ {t}, saveIndexFor saves t = some i → t ≠ zeroTime := by
    rintro t h rfl
    rw [saveIndexFor, if_pos rfl] at h
    cases h
  have ht := hne h
  have ht' := hne h'
  rw [saveIndexFor_eq hsorted ht] at h
  rw [saveIndexFor_eq hsorted ht'] at h'
  obtain ⟨hi, -⟩ := List.findIdx?_eq_some_iff_getElem.mp h
  refine ⟨ht, ht', ⟨saves[i], List.getElem_mem hi, ?_, ?_⟩, fun s hs => ?_⟩
  · exact (createdOn_le_iff hsorted h hi).mpr le_rfl
  · exact (createdOn_le_iff hsorted h' hi).mpr le_rfl
  · obtain ⟨j, hj, rfl⟩ := List.getElem_of_mem hs
    rw [createdOn_le_iff hsorted h hj, createdOn_le_iff hsorted h' hj]

/-- A marker applied to the save that is known to be its own. -/
def markAt (index : Time → Option Nat) (saves : List HistorySave) (m : Marker) :
    List HistorySave :=
  match index m.instant with
  | none => saves
  | some i => saves.modify i (·.decorate m)

theorem length_markAt (index : Time → Option Nat) :
    (markAt index saves m).length = saves.length := by
  unfold markAt
  split <;> simp

theorem length_foldl_markAt (index : Time → Option Nat) (markers : List Marker) :
    (markers.foldl (markAt index) saves).length = saves.length := by
  induction markers generalizing saves with
  | nil => rfl
  | cons m markers ih => rw [List.foldl_cons, ih, length_markAt]

theorem createdOn_mark : (mark saves m).map (·.createdOn) = saves.map (·.createdOn) := by
  unfold mark
  split
  · rfl
  · next i hi =>
    refine List.ext_getElem? fun j => ?_
    rw [List.getElem?_map, List.getElem?_map, List.getElem?_modify]
    cases saves[j]? with
    | none => rfl
    | some s =>
      by_cases hij : i = j
      · simp [hij, HistorySave.decorate]
      · simp [hij]

/-- No marker moves a save, so that each finds its own in what the saves were at first. -/
theorem foldl_mark (markers : List Marker) (h : saves.map (·.createdOn) = base.map (·.createdOn)) :
    markers.foldl mark saves = markers.foldl (markAt (saveIndexFor base)) saves := by
  induction markers generalizing saves with
  | nil => rfl
  | cons m markers ih =>
    have hmark : mark saves m = markAt (saveIndexFor base) saves m := by
      rw [mark, saveIndexFor_congr h, markAt]
    rw [List.foldl_cons, List.foldl_cons, ih (createdOn_mark.trans h), hmark]

theorem decorate_comm (h : m.Agrees m') (s : HistorySave) :
    (s.decorate m).decorate m' = (s.decorate m').decorate m := by
  obtain ⟨hmilestone, hrevision⟩ := h
  simp only [HistorySave.decorate, HistorySave.mk.injEq, true_and]
  constructor
  · split <;> split <;> simp_all
  · split <;> split <;> simp_all

theorem agrees_of_decorate_comm {s : HistorySave}
    (h : (s.decorate m).decorate m' = (s.decorate m').decorate m) : m.Agrees m' := by
  simp only [HistorySave.decorate, HistorySave.mk.injEq, true_and] at h
  constructor
  · intro hm hm'
    simpa [hm, hm', eq_comm] using h.1
  · intro hm hm'
    simpa [hm, hm', eq_comm] using h.2

theorem markAt_comm {index : Time → Option Nat}
    (h : ∀ i, index m.instant = some i → index m'.instant = some i → m.Agrees m')
    (saves : List HistorySave) :
    markAt index (markAt index saves m) m' = markAt index (markAt index saves m') m := by
  unfold markAt
  cases hm : index m.instant with
  | none => rfl
  | some i =>
    cases hm' : index m'.instant with
    | none => rfl
    | some j =>
      by_cases hij : i = j
      · subst hij
        have hcomm : (fun s : HistorySave => (s.decorate m).decorate m') =
            fun s => (s.decorate m').decorate m := funext (decorate_comm (h i hm hm'))
        simp only [List.modify_modify_eq, Function.comp_def, hcomm]
      · exact List.modify_modify_ne _ _ _ hij

theorem agrees_of_markAt_comm {index : Time → Option Nat} {i : Nat} (hi : i < saves.length)
    (hm : index m.instant = some i) (hm' : index m'.instant = some i)
    (h : markAt index (markAt index saves m) m' = markAt index (markAt index saves m') m) :
    m.Agrees m' := by
  simp only [markAt, hm, hm', List.modify_modify_eq] at h
  have hget := congrArg (·[i]?) h
  simp only [List.getElem?_modify_eq, List.getElem?_eq_getElem hi] at hget
  exact agrees_of_decorate_comm (Option.some.inj hget)

end Marks

/-! ## When the order of the rows does not matter -/

section Order

variable {parse : TimeParse} {rows rows' : List RawChange}

def savesOf (parse : TimeParse) (rows : List RawChange) : List HistorySave :=
  rows.filterMap (·.save? parse)

def markersOf (parse : TimeParse) (rows : List RawChange) : List Marker :=
  rows.filterMap (·.marker? parse)

def changesOf (parse : TimeParse) (rows : List RawChange) : List HistoryChange :=
  rows.filterMap (·.change? parse)

/-- Markers of one save agree in what they name it. -/
def MarkersAgree (parse : TimeParse) (rows : List RawChange) : Prop :=
  ∀ m ∈ markersOf parse rows, ∀ m' ∈ markersOf parse rows,
    SameSave (savesOf parse rows) m m' → m.Agrees m'

instance (parse : TimeParse) (rows : List RawChange) : Decidable (MarkersAgree parse rows) :=
  inferInstanceAs (Decidable (∀ _ ∈ _, _))

theorem getItemHistory_eq (rows : List RawChange) :
    getItemHistory parse (.ok rows) =
      .ok
        { changes := newestFirst (·.createdOn) (changesOf parse rows)
          saves := (markersOf parse rows).foldl mark
            (newestFirst (·.createdOn) (savesOf parse rows)) } := by
  simp only [getItemHistory, foldl_add, List.nil_append]
  rfl

/-- What rows of different instants become is told apart by the instant. -/
theorem filterMap_inj {α : Type} {createdOn : α → Time} {f : RawChange → Option α}
    (hf : ∀ {c a}, f c = some a → createdOn a = c.instant parse)
    (hdistinct : (rows.map (·.instant parse)).Nodup) :
    ∀ a ∈ rows.filterMap f, ∀ b ∈ rows.filterMap f, createdOn a = createdOn b → a = b := by
  intro a ha b hb heq
  obtain ⟨c, hc, hca⟩ := List.mem_filterMap.mp ha
  obtain ⟨d, hd, hdb⟩ := List.mem_filterMap.mp hb
  have hcd : c = d := List.inj_on_of_nodup_map hdistinct hc hd (by rw [← hf hca, ← hf hdb, heq])
  exact Option.some.inj (hca.symm.trans (hcd ▸ hdb))

theorem newestFirst_filterMap {α : Type} {createdOn : α → Time} {f : RawChange → Option α}
    (hf : ∀ {c a}, f c = some a → createdOn a = c.instant parse)
    (hdistinct : (rows.map (·.instant parse)).Nodup) (hperm : rows'.Perm rows) :
    newestFirst createdOn (rows'.filterMap f) = newestFirst createdOn (rows.filterMap f) :=
  (sortOn_eq_of_perm (hperm.symm.filterMap f) fun a ha b hb heq =>
    filterMap_inj hf hdistinct a ha b hb (OrderDual.toDual_inj.mp heq)).symm

theorem changesOf_perm (hdistinct : (rows.map (·.instant parse)).Nodup)
    (hperm : rows'.Perm rows) :
    newestFirst (·.createdOn) (changesOf parse rows') =
      newestFirst (·.createdOn) (changesOf parse rows) :=
  newestFirst_filterMap RawChange.createdOn_change hdistinct hperm

theorem savesOf_perm (hdistinct : (rows.map (·.instant parse)).Nodup) (hperm : rows'.Perm rows) :
    newestFirst (·.createdOn) (savesOf parse rows') =
      newestFirst (·.createdOn) (savesOf parse rows) :=
  newestFirst_filterMap RawChange.createdOn_save hdistinct hperm

theorem pairwise_saves (hdistinct : (rows.map (·.instant parse)).Nodup) :
    (newestFirst (·.createdOn) (savesOf parse rows)).Pairwise
      fun a b => b.createdOn < a.createdOn := by
  have hne : (savesOf parse rows).Pairwise fun a b => a.createdOn ≠ b.createdOn := by
    refine List.Pairwise.filterMap _ (fun c d hcd a ha b hb => ?_) (List.pairwise_map.mp hdistinct)
    rwa [RawChange.createdOn_save ha, RawChange.createdOn_save hb]
  have hsorted : (newestFirst (·.createdOn) (savesOf parse rows)).Pairwise
      fun a b => a.createdOn ≠ b.createdOn :=
    (sortOn_perm _ _).symm.pairwise hne fun h => h.symm
  refine ((pairwise_sortOn _ _).and hsorted).imp fun h => ?_
  exact lt_of_le_of_ne (OrderDual.toDual_le_toDual.mp h.1) h.2.symm

/-- Two marker rows can be moved to the end, in either order. -/
theorem perm_last {c d : RawChange} (hc : c ∈ rows) (hd : d ∈ rows) (hne : c ≠ d) :
    ∃ rest, (rest ++ [c, d]).Perm rows ∧ (rest ++ [d, c]).Perm rows := by
  have hc' := List.perm_cons_erase hc
  have hd' : (rows.erase c).Perm (d :: (rows.erase c).erase d) :=
    List.perm_cons_erase ((List.mem_erase_of_ne hne.symm).mpr hd)
  have hboth : rows.Perm ([c, d] ++ (rows.erase c).erase d) := hc'.trans (hd'.cons c)
  refine ⟨(rows.erase c).erase d, ?_, ?_⟩
  · exact List.perm_append_comm.trans hboth.symm
  · exact (List.perm_append_comm.trans (List.Perm.swap c d _)).trans hboth.symm

/-- **The order of the rows does not matter** exactly when the markers of each save agree in what
they name it. -/
theorem history_perm_iff (parse : TimeParse) (rows : List RawChange)
    (hdistinct : (rows.map (·.instant parse)).Nodup) :
    (∀ rows', rows'.Perm rows →
      getItemHistory parse (.ok rows') = getItemHistory parse (.ok rows)) ↔
      MarkersAgree parse rows := by
  have hsorted := pairwise_saves hdistinct
  have hsame : ∀ {m m'}, SameSave (newestFirst (·.createdOn) (savesOf parse rows)) m m' ↔
      SameSave (savesOf parse rows) m m' := by
    intro m m'
    simp only [SameSave, newestFirst, mem_sortOn]
  constructor
  · intro hperm m hm m' hm' h
    obtain ⟨c, hc, hcm⟩ := List.mem_filterMap.mp hm
    obtain ⟨d, hd, hdm⟩ := List.mem_filterMap.mp hm'
    by_cases hcd : c = d
    · subst hcd
      rw [Option.some.inj (hcm.symm.trans hdm)]
      exact ⟨fun _ _ => rfl, fun _ _ => rfl⟩
    -- the histories of the rows with either of the two markers last
    obtain ⟨rest, hfirst, hlast⟩ := perm_last hc hd hcd
    have heq := (hperm _ hfirst).trans (hperm _ hlast).symm
    rw [getItemHistory_eq, getItemHistory_eq] at heq
    have heq := congrArg ItemHistory.saves (Except.ok.inj heq)
    dsimp only at heq
    rw [savesOf_perm hdistinct hfirst, savesOf_perm hdistinct hlast, foldl_mark _ rfl,
      foldl_mark _ rfl] at heq
    have hmarkers : markersOf parse (rest ++ [c, d]) = markersOf parse rest ++ [m, m'] := by
      simp [markersOf, List.filterMap_append, hcm, hdm]
    have hmarkers' : markersOf parse (rest ++ [d, c]) = markersOf parse rest ++ [m', m] := by
      simp [markersOf, List.filterMap_append, hcm, hdm]
    rw [hmarkers, hmarkers', List.foldl_append, List.foldl_append] at heq
    obtain ⟨i, hi, hmi, hmi'⟩ := saveIndexFor_of_sameSave hsorted (hsame.mpr h)
    exact agrees_of_markAt_comm (by rwa [length_foldl_markAt]) hmi hmi' heq
  · intro hagree rows' hperm
    rw [getItemHistory_eq, getItemHistory_eq, changesOf_perm hdistinct hperm,
      savesOf_perm hdistinct hperm, foldl_mark _ rfl, foldl_mark _ rfl]
    have hmarkers : (markersOf parse rows').Perm (markersOf parse rows) :=
      hperm.filterMap _
    rw [hmarkers.foldl_eq' fun m hm m' hm' saves => ?_]
    refine markAt_comm (fun i hi hi' => ?_) saves
    exact hagree m (hmarkers.mem_iff.mp hm) m' (hmarkers.mem_iff.mp hm')
      (hsame.mp (sameSave_of_saveIndexFor hsorted hi hi'))

/-- A release on a save, and a milestone before there was any. -/
theorem history_perm_iff_released :
    let rows : List RawChange :=
      [{ typename := milestoneChange, timestamp := "2026-09-04T09:00:00Z", description := "Draft" },
        { typename := "ModelWrittenHistoryChange", timestamp := "2026-09-04T10:00:00Z" },
        { typename := releaseChange, timestamp := "2026-09-04T11:00:00Z", description := "A" }]
    ∀ rows', rows'.Perm rows →
      getItemHistory strictParse (.ok rows') = getItemHistory strictParse (.ok rows) :=
  (history_perm_iff strictParse _ (by decide +kernel)).mpr (by decide +kernel)

/-- Two milestones after one save: the row that comes last names it. -/
theorem markers_overwrite :
    ¬ ∀ (parse : TimeParse) (rows rows' : List RawChange),
      (∀ c ∈ rows, (parse rfc3339 c.timestamp).isSome) → (rows.map (·.instant parse)).Nodup →
        rows'.Perm rows →
        getItemHistory parse (.ok rows') = getItemHistory parse (.ok rows) := by
  intro hperm
  have heq := hperm strictParse
    [{ typename := "ModelWrittenHistoryChange", timestamp := "2026-09-04T10:00:00Z" },
      { typename := milestoneChange, timestamp := "2026-09-04T11:00:00Z", description := "Draft" },
      { typename := milestoneChange, timestamp := "2026-09-04T12:00:00Z", description := "Final" }]
    [{ typename := "ModelWrittenHistoryChange", timestamp := "2026-09-04T10:00:00Z" },
      { typename := milestoneChange, timestamp := "2026-09-04T12:00:00Z", description := "Final" },
      { typename := milestoneChange, timestamp := "2026-09-04T11:00:00Z", description := "Draft" }]
    (by decide +kernel) (by decide +kernel) (by decide +kernel)
  have hsaves := congrArg (fun r => r.toOption.map ItemHistory.saves) heq
  revert hsaves
  decide +kernel

end Order

end FusionLocalServer.Api
