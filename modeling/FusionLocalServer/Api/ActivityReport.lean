import FusionLocalServer.Api.History
import FusionLocalServer.Lib.Tally
import FusionLocalServer.Lib.Utf8
import FusionLocalServer.Lib.Week

/-!
# The activity report

The events of a feed are filtered by scope and time, and what is left is rolled up five ways
(`api/activity_report.go`): by buckets of time, by actor, by the child of the scope, by design, and
into the first and last times. Each roll-up skips the events that have no key for it.

The maps of the source are gone through in any order before they are sorted, and `sort.Slice` is not
stable; both are in the `SliceSort` the report is built with.

- `buildReport_conserves`: the counts of each roll-up add up to the events that have a key for it.
- `report_conserves` adds that the report says the same of the events in any order.
-/

namespace FusionLocalServer.Api

open Lib
open Std (ExtTreeMap)

structure Actor where
  accountID : String := ""
  displayName : String := ""
  email : String := ""
deriving DecidableEq

structure ActivityEvent where
  entityType : String := ""
  entityID : String := ""
  entityName : String := ""
  timestamp : Time := zeroTime
  actor : Actor := {}
  versionNumber : Int := 0
  hubID : String := ""
  hubName : String := ""
  hubForgeID : String := ""
  projectID : String := ""
  projectName : String := ""
  folderURN : String := ""
  lineageURN : String := ""
  createdOn : Time := zeroTime
deriving DecidableEq

/-! ## Scopes and buckets -/

abbrev Scope := String

def scopeHub : Scope := "hub"
def scopeProject : Scope := "project"
def scopeFolder : Scope := "folder"
def scopeDesign : Scope := "design"

abbrev Bucket := String

def bucketHour : Bucket := "hour"
def bucketDay : Bucket := "day"
def bucketMonth : Bucket := "month"
def bucketYear : Bucket := "year"

/-- The events a report carries at most. -/
def maxReportEvents : Nat := 50000

structure Contributor where
  accountID : String
  displayName : String
  email : String
  eventCount : Int := 0
  firstSeen : Time := zeroTime
  lastSeen : Time := zeroTime
deriving DecidableEq

structure TimeBucket where
  start : Time
  count : Int
deriving DecidableEq

structure ChildSummary where
  type : String
  id : String
  name : String
  eventCount : Int := 0
  lastChange : Time := zeroTime
deriving DecidableEq

structure ActivityReport where
  scope : Scope
  scopeID : String
  scopeName : String
  hubID : String
  totalEvents : Int
  designCount : Int
  versionCount : Int
  contributorCount : Int
  createdOn : Time
  lastChange : Time
  bucket : Bucket
  timeline : List TimeBucket
  contributors : List Contributor
  children : List ChildSummary
  events : List ActivityEvent
  eventsTruncated : Bool

def inScope (e : ActivityEvent) (scope : Scope) (id : String) : Bool :=
  if scope = scopeProject then e.projectID = id
  else if scope = scopeFolder then e.folderURN = id
  else if scope = scopeDesign then e.entityID = id || e.lineageURN = id
  else id = "" || e.hubID = id || e.hubForgeID = id

def normalizeBucket (b : Bucket) : Bucket :=
  if b = bucketHour ∨ b = bucketDay ∨ b = bucketMonth ∨ b = bucketYear then b else bucketDay

/-- `time.Date` at the full hour, in UTC. -/
def timeDate (y : Int) (m d hour : Nat) : Time :=
  let second : Int := civilDay y m d * secondsPerDay + (hour * 3600 : Nat)
  second * nanosPerSecond

/-- A time truncated to the start of its bucket. -/
def bucketStart (t : Time) (b : Bucket) : Time :=
  let second : Int := t / nanosPerSecond
  let (y, m, d) := dateOfDay (second / secondsPerDay)
  let hour := (second % secondsPerDay).toNat / 3600
  if b = bucketHour then timeDate y m d hour
  else if b = bucketMonth then timeDate y m 1 0
  else if b = bucketYear then timeDate y 1 1 0
  else timeDate y m d 0

/-- A bucket starts no later than what is in it. -/
theorem bucketStart_le (t : Time) (b : Bucket) : bucketStart t b ≤ t := by
  have hsec : ((secondsPerDay : Nat) : Int) = 86400 := rfl
  have hnano : ((nanosPerSecond : Nat) : Int) = 1000000000 := rfl
  obtain ⟨second, hsecond⟩ : ∃ second : Int, t / nanosPerSecond = second := ⟨_, rfl⟩
  have hday := civilDay_dateOfDay (second / secondsPerDay)
  unfold bucketStart timeDate
  dsimp only
  rw [hsecond]
  generalize dateOfDay (second / secondsPerDay) = date at hday ⊢
  obtain ⟨y, m, d⟩ := date
  dsimp only at hday ⊢
  have hmonth : civilDay y m 1 ≤ civilDay y m d := by
    unfold civilDay
    omega
  have hyear : civilDay y 1 1 ≤ civilDay y m 1 := by
    have : daysBeforeMonth (isLeap (y % 400).toNat) 1 = 0 := by
      cases isLeap (y % 400).toNat <;> rfl
    unfold civilDay
    omega
  rw [hsec] at hday ⊢
  rw [hnano] at hsecond ⊢
  have hfloor : ∀ t : Int, t / 1000000000 = second → second * 1000000000 ≤ t := by
    intro t h
    omega
  refine le_trans ?_ (hfloor t hsecond)
  show (_ : Int) ≤ (_ : Int)
  split
  · omega
  · split
    · omega
    · split <;> omega

/-- A short label of a folder. -/
def folderShortName (urn : String) : String :=
  if urn = "" then ""
  else
    let cs := urn.toList
    let short := (cs.reverse.takeWhile (· ≠ ':')).reverse
    if ':' ∈ cs ∧ short ≠ [] then
      let bytes := encodeUtf8 short
      if 12 < bytes.length then
        "folder " ++ String.ofList (decodeUtf8 (bytes.take 12)) ++ "…"
      else "folder " ++ String.ofList short
    else urn

/-! ## The roll-ups -/

section Build

variable (slice : SliceSort)

/-- The count of each bucket that has events. -/
def bucketCounts (b : Bucket) : Tally ActivityEvent Time Int where
  key e := if e.timestamp = zeroTime then none else some (bucketStart e.timestamp b)
  start _ := 0
  add n _ := n + 1

def buildTimeline (events : List ActivityEvent) (b : Bucket) : List TimeBucket :=
  slice.sort (fun a b => a.start < b.start)
    (((bucketCounts b).run events).toList.map fun (start, count) => { start, count })

/-- The account of an actor, or else its name. -/
def Actor.key (a : Actor) : String := if a.accountID = "" then a.displayName else a.accountID

def Contributor.see (c : Contributor) (e : ActivityEvent) : Contributor :=
  { c with
    eventCount := c.eventCount + 1
    firstSeen :=
      if e.timestamp ≠ zeroTime ∧ (c.firstSeen = zeroTime ∨ e.timestamp < c.firstSeen) then
        e.timestamp
      else c.firstSeen
    lastSeen :=
      if e.timestamp ≠ zeroTime ∧ c.lastSeen < e.timestamp then e.timestamp else c.lastSeen }

def contributorsByKey : Tally ActivityEvent String Contributor where
  key e := if e.actor.key = "" then none else some e.actor.key
  start e :=
    { accountID := e.actor.accountID, displayName := e.actor.displayName, email := e.actor.email }
  add := Contributor.see

def buildContributors (events : List ActivityEvent) : List Contributor :=
  slice.sort
    (fun a b =>
      if a.eventCount ≠ b.eventCount then b.eventCount < a.eventCount
      else a.displayName < b.displayName)
    ((contributorsByKey.run events).toList.map (·.2))

/-- What the children of a scope are, and the id and the name of the child an event is in. -/
def childOf (scope : Scope) : Option (String × (ActivityEvent → String × String)) :=
  if scope = scopeHub then some ("project", fun e => (e.projectID, e.projectName))
  else if scope = scopeProject then
    some ("folder", fun e => (e.folderURN, folderShortName e.folderURN))
  else if scope = scopeFolder then some ("design", fun e => (e.entityID, e.entityName))
  else none

def ChildSummary.see (c : ChildSummary) (e : ActivityEvent) (name : String) : ChildSummary :=
  { c with
    name := if c.name = "" then name else c.name
    eventCount := c.eventCount + 1
    lastChange := if c.lastChange < e.timestamp then e.timestamp else c.lastChange }

/-- The children so far, and the order they came in. -/
structure Children where
  idx : ExtTreeMap String ChildSummary := ∅
  order : List String := []

/-- One turn of the loop over the events. -/
def Children.add (childType : String) (keyOf : ActivityEvent → String × String) (r : Children)
    (e : ActivityEvent) : Children :=
  let (id, name) := keyOf e
  if id = "" then r
  else match r.idx[id]? with
    | none =>
      { idx := r.idx.insert id (({ type := childType, id, name } : ChildSummary).see e name)
        order := r.order ++ [id] }
    | some c => { r with idx := r.idx.insert id (c.see e name) }

def buildChildren (events : List ActivityEvent) (scope : Scope) : List ChildSummary :=
  match childOf scope with
  | none => []
  | some (childType, keyOf) =>
    let r := events.foldl (Children.add childType keyOf) {}
    slice.sort
      (fun a b =>
        if a.eventCount ≠ b.eventCount then b.eventCount < a.eventCount else a.name < b.name)
      (r.order.filterMap (r.idx[·]?))

/-- The lineage of a design, or else its id. -/
def designKey (e : ActivityEvent) : String :=
  if e.lineageURN = "" then e.entityID else e.lineageURN

/-- The highest version of each design so far. -/
def maxVersion (maxVer : ExtTreeMap String Int) (e : ActivityEvent) : ExtTreeMap String Int :=
  let key := designKey e
  if e.entityType ≠ "design" ∨ key = "" then maxVer
  else if maxVer[key]?.getD 0 < e.versionNumber then maxVer.insert key e.versionNumber
  else if key ∉ maxVer then maxVer.insert key e.versionNumber
  else maxVer

def designAndVersionCounts (events : List ActivityEvent) : Int × Int :=
  let maxVer := events.foldl maxVersion ∅
  (maxVer.size, (maxVer.toList.map (·.2)).sum)

/-- One turn of the loop for the first time of creation and the last change. -/
def seeTimes (times : Time × Time) (e : ActivityEvent) : Time × Time :=
  let (created, last) := times
  (if e.createdOn ≠ zeroTime ∧ (created = zeroTime ∨ e.createdOn < created) then e.createdOn
    else created,
    if last < e.timestamp then e.timestamp else last)

def createdAndLastChange (events : List ActivityEvent) : Time × Time :=
  events.foldl seeTimes (zeroTime, zeroTime)

def nameOfScope (scope : Scope) (id : String) : List ActivityEvent → String
  | [] => ""
  | e :: _ =>
    if scope = scopeProject then e.projectName
    else if scope = scopeDesign then e.entityName
    else if scope = scopeFolder then folderShortName id
    else e.hubName

def scopeHubID (events : List ActivityEvent) : String :=
  ((events.find? (·.hubID ≠ "")).map (·.hubID)).getD ""

/-- An event of the scope in the window, whose ends are open when they are zero. -/
def kept (scope : Scope) (id : String) (fromTime toTime : Time) (e : ActivityEvent) : Bool :=
  inScope e scope id && !(fromTime ≠ zeroTime && e.timestamp < fromTime) &&
    !(toTime ≠ zeroTime && toTime < e.timestamp)

def defaultScope (scope : Scope) : Scope := if scope = "" then scopeHub else scope

def buildReport (events : List ActivityEvent) (scope : Scope) (id : String) (bucket : Bucket)
    (fromTime toTime : Time) : ActivityReport :=
  let scope := defaultScope scope
  let bucket := normalizeBucket bucket
  let filtered := events.filter (kept scope id fromTime toTime)
  let contributors := buildContributors slice filtered
  let (designCount, versionCount) := designAndVersionCounts filtered
  let (createdOn, lastChange) := createdAndLastChange filtered
  { scope
    scopeID := id
    scopeName := nameOfScope scope id filtered
    hubID := scopeHubID filtered
    totalEvents := filtered.length
    designCount
    versionCount
    contributorCount := contributors.length
    createdOn
    lastChange
    bucket
    timeline := buildTimeline slice filtered bucket
    contributors
    children := buildChildren slice filtered scope
    events := (newestFirst (·.timestamp) filtered).take maxReportEvents
    eventsTruncated := maxReportEvents < filtered.length }

end Build

/-! ## The roll-ups as tallies -/

def childrenByID (childType : String) (keyOf : ActivityEvent → String × String) :
    Tally ActivityEvent String ChildSummary where
  key e := if (keyOf e).1 = "" then none else some (keyOf e).1
  start e := { type := childType, id := (keyOf e).1, name := (keyOf e).2 }
  add c e := c.see e (keyOf e).2

/-- The order lists the children that are known, each once. -/
def Children.Inv (r : Children) : Prop :=
  r.order.Nodup ∧ ∀ id, id ∈ r.order ↔ (r.idx[id]?).isSome

section Children

variable {childType : String} {keyOf : ActivityEvent → String × String}

theorem Children.idx_add (r : Children) (e : ActivityEvent) :
    (r.add childType keyOf e).idx = (childrenByID childType keyOf).put r.idx e := by
  unfold Children.add Tally.put childrenByID
  dsimp only
  by_cases hid : (keyOf e).1 = ""
  · simp [hid]
  · cases h : r.idx[(keyOf e).1]? <;> simp [hid, h]

theorem Children.Inv.add {r : Children} (h : r.Inv) (e : ActivityEvent) :
    (r.add childType keyOf e).Inv := by
  obtain ⟨hnodup, hmem⟩ := h
  unfold Children.add
  dsimp only
  split
  · exact ⟨hnodup, hmem⟩
  · split
    · next hnew =>
      constructor
      · refine List.nodup_append.mpr ⟨hnodup, List.nodup_singleton _, ?_⟩
        rintro id hid _ hlast rfl
        rw [List.mem_singleton.mp hlast, hmem, hnew] at hid
        exact nomatch hid
      · intro id
        dsimp only
        rw [Table.get_insert, List.mem_append, List.mem_singleton, hmem]
        by_cases hid : (keyOf e).1 = id
        · simp [hid]
        · simp [hid, Ne.symm hid]
    · next c hc =>
      refine ⟨hnodup, fun id => ?_⟩
      dsimp only
      rw [Table.get_insert, hmem]
      by_cases hid : (keyOf e).1 = id
      · simp [← hid, hc]
      · simp [hid]

theorem Children.foldl_add (childType : String) (keyOf : ActivityEvent → String × String)
    (events : List ActivityEvent) (r : Children) (h : r.Inv) :
    (events.foldl (Children.add childType keyOf) r).Inv ∧
      (events.foldl (Children.add childType keyOf) r).idx =
        events.foldl (childrenByID childType keyOf).put r.idx := by
  induction events generalizing r with
  | nil => exact ⟨h, rfl⟩
  | cons e events ih =>
    rw [List.foldl_cons, List.foldl_cons, ← Children.idx_add]
    exact ih _ (h.add e)

variable {slice : SliceSort} {events : List ActivityEvent} {scope : Scope}

/-- The children are what the tally by their ids has. -/
theorem children_perm (h : childOf scope = some (childType, keyOf)) :
    (buildChildren slice events scope).Perm
      (((childrenByID childType keyOf).run events).toList.map (·.2)) := by
  have hstart : ({} : Children).Inv := ⟨List.nodup_nil, fun id => by simp⟩
  obtain ⟨⟨hnodup, hmem⟩, hidx⟩ :=
    Children.foldl_add childType keyOf events {} hstart
  simp only [buildChildren, h]
  refine (slice.perm _ _).trans ?_
  rw [Tally.run, ← hidx]
  exact Table.filterMap_get_perm hnodup hmem

end Children

def versionsByDesign : Tally ActivityEvent String Int where
  key e := if e.entityType ≠ "design" ∨ designKey e = "" then none else some (designKey e)
  start e := e.versionNumber
  add v e := max v e.versionNumber

theorem maxVersion_eq (m : ExtTreeMap String Int) (e : ActivityEvent) :
    maxVersion m e = versionsByDesign.put m e := by
  unfold maxVersion Tally.put versionsByDesign
  dsimp only
  by_cases hskip : e.entityType ≠ "design" ∨ designKey e = ""
  · rw [if_pos hskip, if_pos hskip]
  · rw [if_neg hskip, if_neg hskip]
    dsimp only
    cases hget : m[designKey e]? with
    | none =>
      have hnew : designKey e ∉ m := fun hmem => by
        rw [ExtTreeMap.getElem?_eq_some_getElem hmem] at hget
        cases hget
      simp [hnew]
    | some v =>
      have hknown : designKey e ∈ m := by
        by_contra hnot
        rw [ExtTreeMap.getElem?_eq_none hnot] at hget
        cases hget
      simp only [Option.getD_some, hknown, not_true, if_false]
      split
      · next hlt => rw [max_eq_right hlt.le]
      · next hle => rw [max_eq_left (not_lt.mp hle), Table.insert_self hget]

theorem designAndVersionCounts_eq (events : List ActivityEvent) :
    designAndVersionCounts events =
      (((versionsByDesign.run events).size : Int),
        ((versionsByDesign.run events).toList.map (·.2)).sum) := by
  have hfun : maxVersion = versionsByDesign.put := funext fun m => funext (maxVersion_eq m)
  unfold designAndVersionCounts Tally.run
  rw [hfun]

/-! ## The counts of the roll-ups -/

/-- The id of the child of the scope an event is in. -/
def childIDOf (scope : Scope) (e : ActivityEvent) : String :=
  ((childOf scope).map fun child => (child.2 e).1).getD ""

def childNameOf (scope : Scope) (e : ActivityEvent) : String :=
  ((childOf scope).map fun child => (child.2 e).2).getD ""

/-- The counts of a report add up to the events it is of, and its buckets come one after another. -/
structure ActivityReport.Conserves (rep : ActivityReport) (filtered : List ActivityEvent) :
    Prop where
  total : rep.totalEvents = filtered.length
  timeline : (rep.timeline.map (·.count)).sum = filtered.countP (·.timestamp ≠ zeroTime)
  contributors :
    (rep.contributors.map (·.eventCount)).sum = filtered.countP (·.actor.key ≠ "")
  children :
    (rep.children.map (·.eventCount)).sum = filtered.countP (childIDOf rep.scope · ≠ "")
  ascending : rep.timeline.Pairwise fun a b => a.start < b.start

section Counts

variable {slice : SliceSort} {events : List ActivityEvent} {scope : Scope} {b : Bucket}

theorem timeline_perm (slice : SliceSort) (events : List ActivityEvent) (b : Bucket) :
    (buildTimeline slice events b).Perm
      (((bucketCounts b).run events).toList.map fun (start, count) => { start, count }) :=
  slice.perm _ _

theorem contributors_perm (slice : SliceSort) (events : List ActivityEvent) :
    (buildContributors slice events).Perm ((contributorsByKey.run events).toList.map (·.2)) :=
  slice.perm _ _

theorem timeline_sum (slice : SliceSort) (events : List ActivityEvent) (b : Bucket) :
    ((buildTimeline slice events b).map (·.count)).sum =
      events.countP (·.timestamp ≠ zeroTime) := by
  rw [((timeline_perm slice events b).map _).sum_eq, List.map_map]
  refine ((bucketCounts b).total_run id (fun _ => rfl) (fun _ _ => rfl) events).trans ?_
  congr 2
  funext e
  simp only [bucketCounts]
  split <;> simp [*]

theorem contributors_sum (slice : SliceSort) (events : List ActivityEvent) :
    ((buildContributors slice events).map (·.eventCount)).sum =
      events.countP (·.actor.key ≠ "") := by
  rw [((contributors_perm slice events).map _).sum_eq, List.map_map]
  refine (contributorsByKey.total_run (·.eventCount) (fun _ => rfl) (fun _ _ => rfl) events).trans ?_
  congr 2
  funext e
  simp only [contributorsByKey]
  split <;> simp [*]

theorem children_sum (slice : SliceSort) (events : List ActivityEvent) (scope : Scope) :
    ((buildChildren slice events scope).map (·.eventCount)).sum =
      events.countP (childIDOf scope · ≠ "") := by
  cases h : childOf scope with
  | none => simp [buildChildren, childIDOf, h]
  | some child =>
    obtain ⟨childType, keyOf⟩ := child
    rw [((children_perm h).map _).sum_eq, List.map_map]
    refine ((childrenByID childType keyOf).total_run (·.eventCount) (fun _ => rfl)
      (fun _ _ => rfl) events).trans ?_
    congr 2
    funext e
    simp only [childrenByID, childIDOf, h]
    split <;> simp [*]

/-- No two points of the timeline start at one time. -/
theorem timeline_ascending (slice : SliceSort) (events : List ActivityEvent) (b : Bucket) :
    (buildTimeline slice events b).Pairwise fun a b => a.start < b.start := by
  have hkeys : ((((bucketCounts b).run events).toList.map
      fun (start, count) => ({ start, count } : TimeBucket))).Pairwise
        fun a b => a.start ≠ b.start := by
    refine List.pairwise_map.mpr (ExtTreeMap.distinct_keys_toList.imp ?_)
    rintro ⟨a, n⟩ ⟨b, k⟩ h heq
    exact h (by rw [show a = b from heq, Std.compare_self])
  have hne := (timeline_perm slice events b).symm.pairwise hkeys fun h => h.symm
  refine ((slice.sorted TimeBucket.start _).and hne).imp fun h => ?_
  exact lt_of_le_of_ne h.1 h.2

/-- **The report conserves the events.** -/
theorem buildReport_conserves (slice : SliceSort) (events : List ActivityEvent) (scope : Scope)
    (id : String) (bucket : Bucket) (fromTime toTime : Time) :
    (buildReport slice events scope id bucket fromTime toTime).Conserves
      (events.filter (kept (defaultScope scope) id fromTime toTime)) where
  total := rfl
  timeline := timeline_sum _ _ _
  contributors := contributors_sum _ _
  children := children_sum _ _ _
  ascending := timeline_ascending _ _ _

end Counts

/-! ## The order of the events -/

/-- Events in one child of the scope agree on its name, and events of one actor on who that is. -/
structure NamesAgree (scope : Scope) (events : List ActivityEvent) : Prop where
  child : ∀ e ∈ events, ∀ e' ∈ events, childIDOf scope e ≠ "" →
    childIDOf scope e = childIDOf scope e' → childNameOf scope e = childNameOf scope e'
  actor : ∀ e ∈ events, ∀ e' ∈ events, e.actor.key ≠ "" →
    e.actor.key = e'.actor.key → e.actor = e'.actor

/-- Two reports that say the same, but for the order of what they list. -/
structure ActivityReport.SameFigures (rep rep' : ActivityReport) : Prop where
  timeline : rep.timeline.Perm rep'.timeline
  contributors : rep.contributors.Perm rep'.contributors
  children : rep.children.Perm rep'.children
  totalEvents : rep.totalEvents = rep'.totalEvents
  designCount : rep.designCount = rep'.designCount
  versionCount : rep.versionCount = rep'.versionCount
  contributorCount : rep.contributorCount = rep'.contributorCount
  createdOn : rep.createdOn = rep'.createdOn
  lastChange : rep.lastChange = rep'.lastChange

section Order

variable {slice : SliceSort} {events events' : List ActivityEvent} {scope : Scope} {b : Bucket}

theorem Contributor.see_comm (c : Contributor) (e e' : ActivityEvent) :
    (c.see e).see e' = (c.see e').see e := by
  simp only [Contributor.see, Contributor.mk.injEq, true_and]
  constructor
  · grind
  · grind

theorem ChildSummary.see_comm (c : ChildSummary) (e e' : ActivityEvent) (name : String) :
    (c.see e name).see e' name = (c.see e' name).see e name := by
  simp only [ChildSummary.see, ChildSummary.mk.injEq, true_and]
  grind

theorem seeTimes_comm (times : Time × Time) (e e' : ActivityEvent) :
    seeTimes (seeTimes times e) e' = seeTimes (seeTimes times e') e := by
  obtain ⟨created, last⟩ := times
  simp only [seeTimes, Prod.mk.injEq]
  constructor
  · grind
  · grind

theorem NamesAgree.subset (h : NamesAgree scope events) (hsub : ∀ e ∈ events', e ∈ events) :
    NamesAgree scope events' where
  child e he e' he' := h.child e (hsub e he) e' (hsub e' he')
  actor e he e' he' := h.actor e (hsub e he) e' (hsub e' he')

theorem bucketCounts_perm (hperm : events'.Perm events) (b : Bucket) :
    (bucketCounts b).run events' = (bucketCounts b).run events :=
  Tally.run_perm hperm fun _ _ _ _ _ _ _ => .of_start rfl fun _ => rfl

theorem contributorsByKey_perm (hperm : events'.Perm events) (h : NamesAgree scope events') :
    contributorsByKey.run events' = contributorsByKey.run events := by
  refine Tally.run_perm hperm fun e he e' he' k hk hk' => .of_start ?_ fun c => c.see_comm e e'
  simp only [contributorsByKey, Option.ite_none_left_eq_some, Option.some.injEq] at hk hk' ⊢
  rw [h.actor e he e' he' hk.1 (hk.2.trans hk'.2.symm)]

theorem childrenByID_perm {childType : String} {keyOf : ActivityEvent → String × String}
    (hchild : childOf scope = some (childType, keyOf)) (hperm : events'.Perm events)
    (h : NamesAgree scope events') :
    (childrenByID childType keyOf).run events' = (childrenByID childType keyOf).run events := by
  have hid : ∀ e, childIDOf scope e = (keyOf e).1 := fun e => by simp [childIDOf, hchild]
  have hname : ∀ e, childNameOf scope e = (keyOf e).2 := fun e => by simp [childNameOf, hchild]
  refine Tally.run_perm hperm fun e he e' he' k hk hk' => ?_
  simp only [childrenByID, Option.ite_none_left_eq_some, Option.some.injEq] at hk hk'
  have hsame : (keyOf e).1 = (keyOf e').1 := hk.2.trans hk'.2.symm
  have hagree : (keyOf e).2 = (keyOf e').2 := by
    rw [← hname, ← hname]
    exact h.child e he e' he' (by rw [hid]; exact hk.1) (by rw [hid, hid, hsame])
  refine .of_start ?_ fun c => ?_
  · simp only [childrenByID, hsame, hagree]
  · simp only [childrenByID, hagree]
    exact c.see_comm e e' _

theorem designAndVersionCounts_perm (hperm : events'.Perm events) :
    designAndVersionCounts events' = designAndVersionCounts events := by
  have hrun : versionsByDesign.run events' = versionsByDesign.run events := by
    refine Tally.run_perm hperm fun e _ e' _ k _ _ => ⟨?_, fun v => max_right_comm _ _ _⟩
    simp only [versionsByDesign, max_self]
    exact max_comm _ _
  rw [designAndVersionCounts_eq, designAndVersionCounts_eq, hrun]

theorem createdAndLastChange_perm (hperm : events'.Perm events) :
    createdAndLastChange events' = createdAndLastChange events :=
  hperm.foldl_eq' (fun e _ e' _ times => seeTimes_comm times e e') _

theorem buildTimeline_perm (slice slice' : SliceSort) (hperm : events'.Perm events) (b : Bucket) :
    (buildTimeline slice' events' b).Perm (buildTimeline slice events b) := by
  have hrun := timeline_perm slice' events' b
  rw [bucketCounts_perm hperm] at hrun
  exact hrun.trans (timeline_perm slice events b).symm

theorem buildContributors_perm (slice slice' : SliceSort) (hperm : events'.Perm events)
    (h : NamesAgree scope events') :
    (buildContributors slice' events').Perm (buildContributors slice events) := by
  have hrun := contributors_perm slice' events'
  rw [contributorsByKey_perm hperm h] at hrun
  exact hrun.trans (contributors_perm slice events).symm

theorem buildChildren_perm (slice slice' : SliceSort) (hperm : events'.Perm events)
    (h : NamesAgree scope events') :
    (buildChildren slice' events' scope).Perm (buildChildren slice events scope) := by
  cases hchild : childOf scope with
  | none => simp [buildChildren, hchild]
  | some child =>
    have hrun : (buildChildren slice' events' scope).Perm _ := children_perm hchild
    rw [childrenByID_perm hchild hperm h] at hrun
    exact hrun.trans (children_perm hchild).symm

/-- **The report conserves the events**, and says the same of them in whatever order they come. -/
theorem report_conserves (slice : SliceSort) (events : List ActivityEvent) (scope : Scope)
    (id : String) (bucket : Bucket) (fromTime toTime : Time)
    (hagree : NamesAgree (defaultScope scope) events) :
    (buildReport slice events scope id bucket fromTime toTime).Conserves
        (events.filter (kept (defaultScope scope) id fromTime toTime)) ∧
      ∀ (slice' : SliceSort) (events' : List ActivityEvent), events'.Perm events →
        (buildReport slice' events' scope id bucket fromTime toTime).SameFigures
          (buildReport slice events scope id bucket fromTime toTime) := by
  refine ⟨buildReport_conserves slice events scope id bucket fromTime toTime, ?_⟩
  intro slice' events' hperm
  have hfiltered := hperm.filter (kept (defaultScope scope) id fromTime toTime)
  have hnames : NamesAgree (defaultScope scope)
      (events'.filter (kept (defaultScope scope) id fromTime toTime)) :=
    hagree.subset fun e he => hperm.mem_iff.mp (List.mem_filter.mp he).1
  have hcontributors := buildContributors_perm slice slice' hfiltered hnames
  have hdesigns := designAndVersionCounts_perm hfiltered
  have htimes := createdAndLastChange_perm hfiltered
  exact
    { timeline := buildTimeline_perm slice slice' hfiltered (normalizeBucket bucket)
      contributors := hcontributors
      children := buildChildren_perm slice slice' hfiltered hnames
      totalEvents := congrArg Int.ofNat hfiltered.length_eq
      designCount := congrArg Prod.fst hdesigns
      versionCount := congrArg Prod.snd hdesigns
      contributorCount := congrArg Int.ofNat hcontributors.length_eq
      createdOn := congrArg Prod.fst htimes
      lastChange := congrArg Prod.snd htimes }

/-- Two saves of a design, one of them undated, and an event of another project without an actor. -/
theorem report_conserves_twoProjects :
    let ann : Actor := { accountID := "u1", displayName := "Ann" }
    let events : List ActivityEvent :=
      [{ entityType := "design", entityID := "d1", timestamp := 2, actor := ann, versionNumber := 2,
         projectID := "p1", projectName := "One" },
        { entityType := "design", entityID := "d1", actor := ann, versionNumber := 1,
          projectID := "p1", projectName := "One" },
        { timestamp := 1, projectID := "p2" }]
    (buildReport .stable events "" "" "" zeroTime zeroTime).Conserves
        (events.filter (kept (defaultScope "") "" zeroTime zeroTime)) ∧
      ∀ (slice' : SliceSort) (events' : List ActivityEvent), events'.Perm events →
        (buildReport slice' events' "" "" "" zeroTime zeroTime).SameFigures
          (buildReport .stable events "" "" "" zeroTime zeroTime) :=
  report_conserves .stable _ "" "" "" zeroTime zeroTime ⟨by decide +kernel, by decide +kernel⟩

end Order

end FusionLocalServer.Api
