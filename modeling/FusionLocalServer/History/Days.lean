import Mathlib.Data.Int.ConditionallyCompleteOrder
import Mathlib.Data.List.Dedup
import Mathlib.Data.List.NodupEquivFin
import Mathlib.Order.WithBot
import FusionLocalServer.Fmt.Dates
import FusionLocalServer.Lib.Groups

/-!
# The days of the history view (`history/historyLayout.ts`)

The saves and changes of a design as rows of local days, newest first, each with a track for an
author; the tail of a day with too many authors is one track. What `new Date` makes of a text is a
parameter, and the zone has a fixed offset.

- `sorted_ordered`: undated events go behind the dated ones, although the comparison of two undated
  ones says that each is behind the other.
- `Tracks` is what the tracks of a day are (`tracks_tracksForDay`).
- `layout_bucketByDay`: no event is lost, doubled or misplaced.
-/

namespace FusionLocalServer.History

open Lib Lib.JsDate Fmt

structure Stamp where
  createdOn : Option String := none
  createdBy : Option String := none
  createdById : Option String := none
deriving DecidableEq

inductive HistoryEvent where
  | save (number : Int) (stamp : Stamp)
  | change (stamp : Stamp)
deriving DecidableEq

def HistoryEvent.stamp : HistoryEvent → Stamp
  | .save _ stamp => stamp
  | .change stamp => stamp

def HistoryEvent.isSave : HistoryEvent → Bool
  | .save _ _ => true
  | .change _ => false

structure HistoryDot where
  v : HistoryEvent
  key : String
  /-- Its place in the whole history, the oldest being 0. -/
  index : Nat
  /-- Milliseconds since midnight, in whole seconds. -/
  ms : Int
deriving DecidableEq

structure HistoryTrack where
  key : String
  name : String
  dots : List HistoryDot
  overflow : Bool
  authorCount : Nat
deriving DecidableEq

structure HistoryDay where
  day : String
  date : Option Int
  tracks : List HistoryTrack
  count : Nat
  saves : Nat
  changes : Nat

def tracksPerDayCap : Nat := 6

def authorKey (v : HistoryEvent) : String :=
  match v.stamp.createdById with
  | some id => if id ≠ "" then id else v.stamp.createdBy.getD ""
  | none => v.stamp.createdBy.getD ""

section Layout

variable (parse : String → Option Int) (offset : Int)

def parseCreatedOn (v : HistoryEvent) : Option Int :=
  match v.stamp.createdOn with
  | some s => if s = "" then none else parse s
  | none => none

/-- The comparison of the sort, of the one event and the other. -/
def compareAt (a b : HistoryEvent × Option Int) : Int :=
  match a.2, b.2 with
  | none, _ => 1
  | some _, none => -1
  | some s, some t => s - t

def ordered (events : List HistoryEvent) : List (HistoryEvent × Option Int) :=
  sortBy (fun a b => compareAt a b < 0) (events.map fun v => (v, parseCreatedOn parse v))

/-- The day of an event; an undated one has none. -/
def dayOf (v : HistoryEvent) : String :=
  match parseCreatedOn parse v with
  | some t => fmtDay offset t
  | none => ""

def dotKey (v : HistoryEvent) (index : Nat) : String :=
  match v with
  | .save number _ => "v" ++ toString number
  | .change _ => "c" ++ toString index

def dotOf (v : HistoryEvent) (t : Option Int) (index : Nat) : HistoryDot where
  v
  key := dotKey v index
  index
  ms :=
    match t with
    | some t =>
      getHours offset t * 3600000 + getMinutes offset t * 60000 + getSeconds offset t * 1000
    | none => 0

def dotsOf (events : List HistoryEvent) : List HistoryDot :=
  (ordered parse events).zipIdx.map fun ((v, t), index) => dotOf offset v t index

def nameOf (dots : List HistoryDot) : String :=
  ((dots.head?.bind fun d => d.v.stamp.createdBy)).getD ""

def firstIndex (t : HistoryTrack) : Nat := (t.dots.head?.map (·.index)).getD 0

def tracksForDay (dots : List HistoryDot) : List HistoryTrack :=
  let byAuthor := groupOn (fun d => authorKey d.v) dots
  let all := sortBy (fun a b => firstIndex a < firstIndex b)
    (byAuthor.map fun (key, list) =>
      { key, name := nameOf list, dots := list, overflow := false, authorCount := 1 })
  if all.length ≤ tracksPerDayCap then all
  else
    let head := all.take (tracksPerDayCap - 1)
    let tail := all.drop (tracksPerDayCap - 1)
    head ++ [
      { key := " ".intercalate (tail.map (·.key))
        name := ", ".intercalate (tail.map (·.name))
        dots := sortBy (fun a b => a.index < b.index) (tail.flatMap (·.dots))
        overflow := true
        authorCount := tail.length }]

def rowOf (day : String) (dots : List HistoryDot) : HistoryDay :=
  let changes := (dots.filter fun d => !d.v.isSave).length
  { day
    date := if day = "" then none else parseDay offset day
    tracks := tracksForDay dots
    count := dots.length
    saves := dots.length - changes
    changes }

/-- What a map has under a key that it has. -/
def getGroup (groups : List (String × List HistoryDot)) (key : String) : List HistoryDot :=
  ((groups.find? (·.1 = key)).map (·.2)).getD []

def bucketByDay (events : List HistoryEvent) : List HistoryDay :=
  let byDay := groupOn (fun d => dayOf parse offset d.v) (dotsOf parse offset events)
  let dated := byDay.filter (·.1 ≠ "")
  let days := (sortOn id (dated.map (·.1))).reverse
  let rows := days.map fun day => rowOf offset day (getGroup dated day)
  match byDay.find? (·.1 = "") with
  | some (_, undated) => rows ++ [rowOf offset "" undated]
  | none => rows

end Layout

/-! ## The tracks of a day -/

/-- The dots of some tracks. -/
def trackDots (tracks : List HistoryTrack) : List HistoryDot := tracks.flatMap (·.dots)

/-- The authors with a track of their own. -/
def ownAuthors (tracks : List HistoryTrack) : List String :=
  (tracks.filter (!·.overflow)).map (·.key)

/-- Tracks of dots: no dot is lost, each track has its dots as they came, an author's track has the
dots of that author, and the track of the tail has those of all others, and their number. -/
structure Tracks (dots : List HistoryDot) (tracks : List HistoryTrack) : Prop where
  perm : (trackDots tracks).Perm dots
  sublist : ∀ t ∈ tracks, t.dots.Sublist dots
  cap : tracks.length ≤ tracksPerDayCap
  authors : (ownAuthors tracks).Nodup
  own : ∀ t ∈ tracks, t.overflow = false → t.dots = dots.filter fun d => authorKey d.v = t.key
  overflow : ∀ t ∈ tracks, t.overflow = true →
    t.dots = (dots.filter fun d => authorKey d.v ∉ ownAuthors tracks) ∧
      t.authorCount = (t.dots.map fun d => authorKey d.v).dedup.length
  tails : (tracks.filter (·.overflow)).length ≤ 1

section Tracks

variable {dots : List HistoryDot}

/-- What sorting puts the tracks of the authors into. -/
def authorTracks (dots : List HistoryDot) : List HistoryTrack :=
  sortBy (fun a b => firstIndex a < firstIndex b)
    ((groupOn (fun d => authorKey d.v) dots).map fun (key, list) =>
      { key, name := nameOf list, dots := list, overflow := false, authorCount := 1 })

theorem authorTracks_perm (dots : List HistoryDot) : (authorTracks dots).Perm
    ((groupOn (fun d => authorKey d.v) dots).map fun (key, list) =>
      { key, name := nameOf list, dots := list, overflow := false, authorCount := 1 }) :=
  sortBy_perm _ _

/-- Each author has a track, with all of the author's dots. -/
theorem authorTracks_spec (dots : List HistoryDot) :
    ((authorTracks dots).map (·.key)).Nodup ∧ (trackDots (authorTracks dots)).Perm dots ∧
      ∀ t ∈ authorTracks dots, t.overflow = false ∧ t.dots ≠ [] ∧
        t.dots = dots.filter fun d => authorKey d.v = t.key := by
  have hperm := authorTracks_perm dots
  have hgroups := grouped_groupOn (fun d : HistoryDot => authorKey d.v) dots
  refine ⟨?_, ?_, fun t ht => ?_⟩
  · rw [(hperm.map _).nodup_iff, List.map_map]
    exact hgroups.nodup
  · refine (hperm.flatMap_right _).trans ?_
    rw [List.flatMap_map]
    exact flatMap_groupOn_perm _ dots
  · obtain ⟨g, hg, rfl⟩ := List.mem_map.mp (hperm.mem_iff.mp ht)
    exact ⟨rfl, hgroups.ne_nil hg, hgroups.elements g hg⟩

/-- Dots that are in the order of their indexes are what sorting makes of them in any order. -/
theorem eq_filter_of_sorted {p : HistoryDot → Bool} {l : List HistoryDot}
    (hsorted : dots.Pairwise fun a b => a.index < b.index) (hl : l.Perm (dots.filter p)) :
    sortBy (fun a b => a.index < b.index) l = dots.filter p := by
  have hperm := (sortBy_perm (fun a b : HistoryDot => a.index < b.index) l).trans hl
  have hkeys : (sortBy (fun a b => a.index < b.index) l).Pairwise fun a b => a.index ≤ b.index :=
    pairwise_sortBy (fun d : HistoryDot => d.index) (fun a b => decide_eq_true_iff) l
  have hfilter := hsorted.filter p
  have hdistinct : ((dots.filter p).map (·.index)).Nodup :=
    List.pairwise_map.mpr (hfilter.imp fun h => h.ne)
  refine hperm.eq_of_pairwise (fun a b ha hb hab hba => ?_) hkeys (hfilter.imp fun h => h.le)
  exact List.inj_on_of_nodup_map hdistinct (hperm.mem_iff.mp ha) hb (le_antisymm hab hba)

/-- The tracks of the authors alone. -/
theorem tracks_authorTracks (hfew : (authorTracks dots).length ≤ tracksPerDayCap) :
    Tracks dots (authorTracks dots) := by
  obtain ⟨hnodup, hperm, hspec⟩ := authorTracks_spec dots
  have hall : (authorTracks dots).filter (!·.overflow) = authorTracks dots :=
    List.filter_eq_self.mpr fun t ht => by rw [(hspec t ht).1]; rfl
  have hnone : (authorTracks dots).filter (·.overflow) = [] :=
    List.filter_eq_nil_iff.mpr fun t ht => by rw [(hspec t ht).1]; exact Bool.false_ne_true
  exact
    { perm := hperm
      sublist := fun t ht => (hspec t ht).2.2 ▸ List.filter_sublist
      cap := hfew
      authors := by rwa [ownAuthors, hall]
      own := fun t ht _ => (hspec t ht).2.2
      overflow := fun t ht h => absurd ((hspec t ht).1.symm.trans h) Bool.false_ne_true
      tails := by rw [hnone]; exact Nat.zero_le 1 }

/-- The dots of the tracks from a place on are those of the authors that have none before. -/
theorem tail_perm (n : Nat) : (trackDots ((authorTracks dots).drop n)).Perm
    (dots.filter fun d => authorKey d.v ∉ ((authorTracks dots).take n).map (·.key)) := by
  obtain ⟨hnodup, hperm, hspec⟩ := authorTracks_spec dots
  have hsplit : (authorTracks dots).take n ++ (authorTracks dots).drop n = authorTracks dots :=
    List.take_append_drop n _
  have hkey : ∀ t ∈ authorTracks dots, ∀ d ∈ t.dots, authorKey d.v = t.key := by
    intro t ht d hd
    rw [(hspec t ht).2.2] at hd
    exact of_decide_eq_true (List.mem_filter.mp hd).2
  have hdots : (trackDots ((authorTracks dots).take n) ++
      trackDots ((authorTracks dots).drop n)).Perm dots := by
    rwa [trackDots, trackDots, ← List.flatMap_append, hsplit]
  have hfilter := hdots.filter
    fun d => decide (authorKey d.v ∉ ((authorTracks dots).take n).map (·.key))
  rw [List.filter_append] at hfilter
  have hhead : (trackDots ((authorTracks dots).take n)).filter
      (fun d => decide (authorKey d.v ∉ ((authorTracks dots).take n).map (·.key))) = [] := by
    refine List.filter_eq_nil_iff.mpr fun d hd h => ?_
    obtain ⟨t, ht, hdt⟩ := List.mem_flatMap.mp hd
    refine of_decide_eq_true h ?_
    rw [hkey t (List.mem_of_mem_take ht) d hdt]
    exact List.mem_map_of_mem ht
  have htail : (trackDots ((authorTracks dots).drop n)).filter
      (fun d => decide (authorKey d.v ∉ ((authorTracks dots).take n).map (·.key))) =
        trackDots ((authorTracks dots).drop n) := by
    refine List.filter_eq_self.mpr fun d hd => decide_eq_true fun hmem => ?_
    obtain ⟨t, ht, hdt⟩ := List.mem_flatMap.mp hd
    rw [hkey t (List.mem_of_mem_drop ht) d hdt] at hmem
    -- no author has a track on both sides
    rw [← hsplit, List.map_append] at hnodup
    exact (List.nodup_append.mp hnodup).2.2 _ hmem _ (List.mem_map_of_mem ht) rfl
  rw [hhead, htail, List.nil_append] at hfilter
  exact hfilter

/-- The track of the tail of the authors. -/
def tailTrack (tail : List HistoryTrack) : HistoryTrack where
  key := " ".intercalate (tail.map (·.key))
  name := ", ".intercalate (tail.map (·.name))
  dots := sortBy (fun a b => a.index < b.index) (tail.flatMap (·.dots))
  overflow := true
  authorCount := tail.length

theorem tracksForDay_eq (dots : List HistoryDot) :
    tracksForDay dots =
      if (authorTracks dots).length ≤ tracksPerDayCap then authorTracks dots
      else (authorTracks dots).take (tracksPerDayCap - 1) ++
        [tailTrack ((authorTracks dots).drop (tracksPerDayCap - 1))] := rfl

/-- The authors of the tail are as many as its dots have. -/
theorem authorCount_tailTrack (n : Nat) :
    ((authorTracks dots).drop n).length =
      ((tailTrack ((authorTracks dots).drop n)).dots.map fun d => authorKey d.v).dedup.length := by
  obtain ⟨hnodup, -, hspec⟩ := authorTracks_spec dots
  have hkeys : (((authorTracks dots).drop n).map (·.key)).Nodup :=
    hnodup.sublist ((List.drop_sublist n _).map _)
  have hperm : (((authorTracks dots).drop n).map (·.key)).Perm
      ((tailTrack ((authorTracks dots).drop n)).dots.map fun d => authorKey d.v).dedup := by
    refine (List.perm_ext_iff_of_nodup hkeys (List.nodup_dedup _)).mpr fun k => ?_
    rw [List.mem_dedup, List.mem_map, List.mem_map]
    have hmem : ∀ d, d ∈ (tailTrack ((authorTracks dots).drop n)).dots ↔
        ∃ t ∈ (authorTracks dots).drop n, d ∈ t.dots := fun d => by
      rw [tailTrack, (sortBy_perm _ _).mem_iff, List.mem_flatMap]
    constructor
    · rintro ⟨t, ht, rfl⟩
      obtain ⟨-, hne, hdots⟩ := hspec t (List.mem_of_mem_drop ht)
      obtain ⟨d, hd⟩ := List.exists_mem_of_ne_nil _ hne
      refine ⟨d, (hmem d).mpr ⟨t, ht, hd⟩, ?_⟩
      rw [hdots] at hd
      exact of_decide_eq_true (List.mem_filter.mp hd).2
    · rintro ⟨d, hd, rfl⟩
      obtain ⟨t, ht, hd⟩ := (hmem d).mp hd
      refine ⟨t, ht, ?_⟩
      rw [(hspec t (List.mem_of_mem_drop ht)).2.2] at hd
      exact (of_decide_eq_true (List.mem_filter.mp hd).2).symm
  rw [← hperm.length_eq, List.length_map]

/-- **The tracks of a day** whose dots come in the order of their indexes. -/
theorem tracks_tracksForDay (hsorted : dots.Pairwise fun a b => a.index < b.index) :
    Tracks dots (tracksForDay dots) := by
  rw [tracksForDay_eq]
  split
  · next hfew => exact tracks_authorTracks hfew
  · next hmany =>
    obtain ⟨hnodup, hperm, hspec⟩ := authorTracks_spec dots
    generalize hn : tracksPerDayCap - 1 = n
    have htail : (trackDots ((authorTracks dots).drop n)).Perm _ := tail_perm n
    have hdots : (tailTrack ((authorTracks dots).drop n)).dots =
        dots.filter fun d => authorKey d.v ∉ ((authorTracks dots).take n).map (·.key) :=
      eq_filter_of_sorted hsorted htail
    have hhead : ∀ t ∈ (authorTracks dots).take n, t ∈ authorTracks dots :=
      fun t => List.mem_of_mem_take
    have hown : ownAuthors ((authorTracks dots).take n ++
        [tailTrack ((authorTracks dots).drop n)]) = ((authorTracks dots).take n).map (·.key) := by
      have hall : ((authorTracks dots).take n).filter (!·.overflow) = (authorTracks dots).take n :=
        List.filter_eq_self.mpr fun t ht => by rw [(hspec t (hhead t ht)).1]; rfl
      rw [ownAuthors, List.filter_append, hall]
      simp [tailTrack]
    have hnone : ((authorTracks dots).take n).filter (·.overflow) = [] :=
      List.filter_eq_nil_iff.mpr fun t ht => by
        rw [(hspec t (hhead t ht)).1]
        exact Bool.false_ne_true
    constructor
    case perm =>
      have hsort : (tailTrack ((authorTracks dots).drop n)).dots.Perm
          (trackDots ((authorTracks dots).drop n)) := sortBy_perm _ _
      rw [trackDots, List.flatMap_append, List.flatMap_singleton]
      refine (hsort.append_left _).trans ?_
      rwa [trackDots, ← List.flatMap_append, List.take_append_drop]
    case sublist =>
      intro t ht
      rcases List.mem_append.mp ht with ht | ht
      · rw [(hspec t (hhead t ht)).2.2]
        exact List.filter_sublist
      · rw [List.mem_singleton.mp ht, hdots]
        exact List.filter_sublist
    case cap =>
      rw [List.length_append, List.length_singleton, List.length_take]
      have hcap : tracksPerDayCap = 6 := rfl
      omega
    case authors =>
      rw [hown]
      exact hnodup.sublist ((List.take_sublist n _).map _)
    case own =>
      intro t ht hover
      rcases List.mem_append.mp ht with ht | ht
      · exact (hspec t (hhead t ht)).2.2
      · rw [List.mem_singleton.mp ht] at hover
        cases hover
    case overflow =>
      intro t ht hover
      rcases List.mem_append.mp ht with ht | ht
      · exact absurd ((hspec t (hhead t ht)).1.symm.trans hover) Bool.false_ne_true
      · rw [List.mem_singleton.mp ht, hown]
        exact ⟨hdots, authorCount_tailTrack n⟩
    case tails =>
      rw [List.filter_append, hnone, List.nil_append]
      exact List.length_filter_le _ _

end Tracks

/-! ## The dots of the history -/

section Dots

variable {parse : String → Option Int} {offset : Int} {events : List HistoryEvent}

theorem ordered_perm (parse : String → Option Int) (events : List HistoryEvent) :
    (ordered parse events).Perm (events.map fun v => (v, parseCreatedOn parse v)) :=
  sortBy_perm _ _

/-- An undated event is later than any other. -/
def orLast : Option Int → WithTop Int
  | some t => t
  | none => ⊤

/-- The oldest is first. -/
theorem sorted_ordered (parse : String → Option Int) (events : List HistoryEvent) :
    (ordered parse events).Pairwise fun a b => orLast a.2 ≤ orLast b.2 := by
  refine pairwise_sortBy (fun a : HistoryEvent × Option Int => orLast a.2) ?_ _
  rintro ⟨v, s⟩ ⟨w, t⟩
  rw [decide_eq_true_iff]
  cases s with
  | none => exact ⟨fun h => absurd h (by decide : ¬ (1 : Int) < 0), fun h => absurd h not_top_lt⟩
  | some s =>
    cases t with
    | none => exact ⟨fun _ => WithTop.coe_lt_top s, fun _ => (by decide : (-1 : Int) < 0)⟩
    | some t =>
      show s - t < 0 ↔ (s : WithTop Int) < (t : WithTop Int)
      rw [WithTop.coe_lt_coe]
      omega

theorem parsed_of_mem_ordered {a : HistoryEvent × Option Int} (h : a ∈ ordered parse events) :
    a.2 = parseCreatedOn parse a.1 := by
  obtain ⟨v, -, rfl⟩ := List.mem_map.mp ((ordered_perm parse events).mem_iff.mp h)
  rfl

@[simp] theorem length_dotsOf : (dotsOf parse offset events).length = events.length := by
  rw [dotsOf, List.length_map, List.length_zipIdx, (ordered_perm parse events).length_eq,
    List.length_map]

theorem map_dotsOf {β : Type} (f : HistoryDot → β) (g : HistoryEvent → Nat → β)
    (h : ∀ v t i, f (dotOf offset v t i) = g v i) :
    (dotsOf parse offset events).map f =
      ((ordered parse events).zipIdx.map fun a => g a.1.1 a.2) := by
  rw [dotsOf, List.map_map]
  exact List.map_congr_left fun a _ => h a.1.1 a.1.2 a.2

theorem dotsOf_v (parse : String → Option Int) (offset : Int) (events : List HistoryEvent) :
    ((dotsOf parse offset events).map (·.v)).Perm events := by
  rw [map_dotsOf (·.v) (fun v _ => v) fun _ _ _ => rfl]
  have hfst : ((ordered parse events).zipIdx.map fun a => a.1.1) =
      (ordered parse events).map (·.1) := by
    rw [← List.zipIdx_map_fst 0 (ordered parse events), List.map_map, List.zipIdx_map_fst]
    rfl
  have hmap := (ordered_perm parse events).map (·.1)
  rw [List.map_map] at hmap
  rw [hfst]
  exact hmap.trans (by rw [show _ ∘ _ = id from rfl, List.map_id])

theorem dotsOf_index (parse : String → Option Int) (offset : Int) (events : List HistoryEvent) :
    (dotsOf parse offset events).map (·.index) = List.range events.length := by
  rw [map_dotsOf (·.index) (fun _ i => i) fun _ _ _ => rfl]
  have hlen : (ordered parse events).length = events.length := by
    rw [(ordered_perm parse events).length_eq, List.length_map]
  rw [show (fun a : (HistoryEvent × Option Int) × Nat => a.2) = Prod.snd from rfl,
    List.zipIdx_map_snd, hlen, List.range_eq_range']

theorem sorted_index : (dotsOf parse offset events).Pairwise fun a b => a.index < b.index := by
  have h : ((dotsOf parse offset events).map (·.index)).Pairwise (· < ·) := by
    rw [dotsOf_index]
    exact List.pairwise_lt_range
  exact List.pairwise_map.mp h

theorem sorted_time : (dotsOf parse offset events).Pairwise fun a b =>
    orLast (parseCreatedOn parse a.v) ≤ orLast (parseCreatedOn parse b.v) := by
  have h : ((dotsOf parse offset events).map fun d => orLast (parseCreatedOn parse d.v)).Pairwise
      (· ≤ ·) := by
    rw [map_dotsOf _ (fun v _ => orLast (parseCreatedOn parse v)) fun _ _ _ => rfl]
    have hfst : ((ordered parse events).zipIdx.map fun a => orLast (parseCreatedOn parse a.1.1)) =
        (ordered parse events).map fun a => orLast a.2 := by
      rw [show (fun a : (HistoryEvent × Option Int) × Nat => orLast (parseCreatedOn parse a.1.1)) =
        (fun a => orLast (parseCreatedOn parse a.1)) ∘ Prod.fst from rfl, ← List.map_map,
        List.zipIdx_map_fst]
      exact List.map_congr_left fun a ha => by rw [parsed_of_mem_ordered ha]
    rw [hfst]
    exact List.pairwise_map.mpr (sorted_ordered parse events)
  exact List.pairwise_map.mp h

/-- The dots by their days. -/
def byDay (parse : String → Option Int) (offset : Int) (events : List HistoryEvent) :
    List (String × List HistoryDot) :=
  groupOn (fun d => dayOf parse offset d.v) (dotsOf parse offset events)

theorem grouped_byDay (parse : String → Option Int) (offset : Int) (events : List HistoryEvent) :
    Grouped (fun d : HistoryDot => dayOf parse offset d.v) (dotsOf parse offset events)
      (byDay parse offset events) :=
  grouped_groupOn _ _

/-- A map has under its keys what it has. -/
theorem map_getGroup {groups : List (String × List HistoryDot)}
    (hnodup : (groups.map (·.1)).Nodup) :
    (groups.map (·.1)).map (fun key => (key, getGroup groups key)) = groups := by
  rw [List.map_map]
  refine (List.map_congr_left fun g hg => ?_).trans (List.map_id groups)
  have hfind : groups.find? (·.1 = g.1) = some g := by
    obtain ⟨g', hg'⟩ : ∃ g', groups.find? (·.1 = g.1) = some g' :=
      Option.isSome_iff_exists.mp (List.find?_isSome.mpr ⟨g, hg, decide_eq_true rfl⟩)
    have hkey : g'.1 = g.1 := by simpa using List.find?_some hg'
    rw [hg', List.inj_on_of_nodup_map hnodup (List.mem_of_find?_eq_some hg') hg hkey]
  simp only [Function.comp, getGroup, hfind, Option.map_some, Option.getD_some, id]

/-- With keys that differ a key finds one group. -/
theorem filter_key_eq {groups : List (String × List HistoryDot)}
    (hnodup : (groups.map (·.1)).Nodup) (key : String) :
    groups.filter (·.1 = key) = (groups.find? (·.1 = key)).toList := by
  induction groups with
  | nil => rfl
  | cons g groups ih =>
    obtain ⟨hnew, hnodup⟩ := List.nodup_cons.mp hnodup
    by_cases hg : g.1 = key
    · have hrest : groups.filter (·.1 = key) = [] := by
        refine List.filter_eq_nil_iff.mpr fun g' hg' h => hnew ?_
        exact List.mem_map.mpr ⟨g', hg', (of_decide_eq_true h).trans hg.symm⟩
      rw [List.filter_cons_of_pos (by simpa using hg), List.find?_cons_of_pos (by simpa using hg),
        hrest]
      rfl
    · rw [List.filter_cons_of_neg (by simpa using hg), List.find?_cons_of_neg (by simpa using hg)]
      exact ih hnodup

/-- The rows are those of the days, the latest text first and the undated row last. -/
theorem bucketByDay_groups (parse : String → Option Int) (offset : Int)
    (events : List HistoryEvent) :
    ∃ dated undated : List (String × List HistoryDot),
      (dated ++ undated).Perm (byDay parse offset events) ∧
      bucketByDay parse offset events =
        (dated ++ undated).map (fun g => rowOf offset g.1 g.2) ∧
      (dated.Pairwise fun a b => b.1 < a.1) ∧ (∀ g ∈ dated, g.1 ≠ "") ∧
      undated.length ≤ 1 ∧ ∀ g ∈ undated, g.1 = "" := by
  have hgroups := grouped_byDay parse offset events
  generalize hbyDay : byDay parse offset events = groups at hgroups ⊢
  have hnodup := hgroups.nodup
  generalize hdated : groups.filter (·.1 ≠ "") = dated
  have hkeys : (dated.map (·.1)).Nodup :=
    hnodup.sublist (hdated ▸ List.filter_sublist.map _)
  generalize hdays : (sortOn id (dated.map (·.1))).reverse = days
  have hperm : days.Perm (dated.map (·.1)) := by
    rw [← hdays]
    exact (List.reverse_perm _).trans (sortOn_perm _ _)
  have hlatest : days.Pairwise fun a b => b < a := by
    have hle := pairwise_sortOn id (dated.map (·.1))
    have hne : (sortOn id (dated.map (·.1))).Pairwise fun a b => a ≠ b :=
      (sortOn_perm id _).symm.pairwise hkeys fun h => h.symm
    rw [← hdays, List.pairwise_reverse]
    exact (hle.and hne).imp fun h => lt_of_le_of_ne h.1 h.2
  have hrows : (days.map fun day => (day, getGroup dated day)).Perm dated := by
    have h := hperm.map fun day => (day, getGroup dated day)
    rwa [map_getGroup hkeys] at h
  refine ⟨days.map fun day => (day, getGroup dated day), (groups.find? (·.1 = "")).toList,
    ?_, ?_, ?_, ?_, ?_, ?_⟩
  · rw [← filter_key_eq hnodup]
    refine (hrows.append_right _).trans ?_
    rw [← hdated]
    have hsplit := List.filter_append_perm (fun g : String × List HistoryDot => g.1 ≠ "") groups
    simpa using hsplit
  · have hundated : bucketByDay parse offset events =
        match groups.find? (·.1 = "") with
        | some (_, undated) =>
          (days.map fun day => rowOf offset day (getGroup dated day)) ++ [rowOf offset "" undated]
        | none => days.map fun day => rowOf offset day (getGroup dated day) := by
      rw [← hdays, ← hdated, ← hbyDay]
      rfl
    rw [hundated, List.map_append, List.map_map]
    cases hfind : groups.find? (·.1 = "") with
    | none => simp [Function.comp_def]
    | some g =>
      have hkey : g.1 = "" := by simpa using List.find?_some hfind
      simp [Function.comp_def, hkey]
  · exact List.pairwise_map.mpr hlatest
  · intro g hg
    have hmem := hrows.mem_iff.mp hg
    rw [← hdated] at hmem
    exact of_decide_eq_true (List.mem_filter.mp hmem).2
  · cases groups.find? (·.1 = "") <;> simp
  · intro g hg
    rw [Option.mem_toList] at hg
    simpa using List.find?_some hg

/-! ## The rows -/

theorem fmtDay_ne_empty (t : Int) : fmtDay offset t ≠ "" := by
  intro h
  have hchars := congrArg String.toList h
  rw [fmtDay, String.toList_ofList] at hchars
  exact absurd hchars (List.append_ne_nil_of_right_ne_nil _ (List.cons_ne_nil _ _))

/-- What a day of the calendar is to an event. -/
def dateOf (parse : String → Option Int) (offset : Int) (v : HistoryEvent) : Option Int :=
  (parseCreatedOn parse v).map fun t => midnight offset (localDay offset t)

/-- All dated events are of years with four digits. -/
def InYears (parse : String → Option Int) (offset : Int) (events : List HistoryEvent) : Prop :=
  ∀ v ∈ events, ∀ t, parseCreatedOn parse v = some t → FourDigits (localDay offset t)

theorem mem_of_mem_dotsOf {d : HistoryDot} (h : d ∈ dotsOf parse offset events) : d.v ∈ events :=
  (dotsOf_v parse offset events).mem_iff.mp (List.mem_map_of_mem h)

/-- The row of a day has its date. -/
theorem rowOf_date (hyears : InYears parse offset events) {d : HistoryDot}
    (hd : d ∈ dotsOf parse offset events) (dots : List HistoryDot) :
    (rowOf offset (dayOf parse offset d.v) dots).date = dateOf parse offset d.v := by
  have hyear := hyears _ (mem_of_mem_dotsOf hd)
  unfold rowOf dayOf dateOf
  dsimp only
  cases htime : parseCreatedOn parse d.v with
  | none => rfl
  | some t =>
    rw [Option.map_some]
    dsimp only
    rw [if_neg (fmtDay_ne_empty t), parseDay_fmtDay (hyear t htime)]

/-- Of two days the one with the later text is later. -/
theorem dateOf_lt (hyears : InYears parse offset events) {d e : HistoryDot}
    (hd : d ∈ dotsOf parse offset events) (he : e ∈ dotsOf parse offset events)
    (hdated : dayOf parse offset d.v ≠ "") (hlt : dayOf parse offset d.v < dayOf parse offset e.v) :
    ∃ s t, dateOf parse offset d.v = some s ∧ dateOf parse offset e.v = some t ∧ s < t := by
  have hyear := hyears _ (mem_of_mem_dotsOf hd)
  have hyear' := hyears _ (mem_of_mem_dotsOf he)
  unfold dayOf at hdated hlt
  unfold dateOf
  cases htime : parseCreatedOn parse d.v with
  | none =>
    rw [htime] at hdated
    exact absurd rfl hdated
  | some s =>
    cases htime' : parseCreatedOn parse e.v with
    | none =>
      rw [htime, htime'] at hlt
      exact absurd hlt (List.not_lt_nil _)
    | some t =>
      rw [htime, htime'] at hlt
      refine ⟨_, _, rfl, rfl, midnight_lt.mpr ?_⟩
      exact (fmtDay_lt (hyear s htime) (hyear' t htime')).mp hlt

/-- The dots of some rows. -/
def rowDots (rows : List HistoryDay) : List HistoryDot := rows.flatMap fun r => trackDots r.tracks

/-- What the rows of a history are: each event is a dot once, in the row of its own day and in the
tracks of it, and the rows are counted and in order. -/
structure Layout (parse : String → Option Int) (offset : Int) (events : List HistoryEvent)
    (rows : List HistoryDay) : Prop where
  perm : ((rowDots rows).map (·.v)).Perm events
  indexes : ((rowDots rows).map (·.index)).Perm (List.range events.length)
  count : ∀ r ∈ rows, r.count = r.saves + r.changes
  saves : ∀ r ∈ rows, r.saves = (trackDots r.tracks).countP (·.v.isSave)
  changes : ∀ r ∈ rows, r.changes = (trackDots r.tracks).countP (!·.v.isSave)
  total : (rows.map (·.count)).sum = events.length
  /-- The newest day is first, and one row without a day may be last. -/
  order : ∃ dated undated, rows = dated ++ undated ∧
    (dated.Pairwise fun a b => ∃ s t, a.date = some s ∧ b.date = some t ∧ t < s) ∧
    (∀ r ∈ dated, r.date ≠ none) ∧ undated.length ≤ 1 ∧ ∀ r ∈ undated, r.day = "" ∧ r.date = none
  day : ∀ r ∈ rows, ∀ d ∈ trackDots r.tracks,
    r.day = dayOf parse offset d.v ∧ r.date = dateOf parse offset d.v
  tracks : ∀ r ∈ rows,
    Tracks ((dotsOf parse offset events).filter fun d => dayOf parse offset d.v = r.day) r.tracks
  /-- The later event has the larger index. -/
  sorted : ∀ r ∈ rows, ∀ t ∈ r.tracks, t.dots.Pairwise fun a b =>
    a.index < b.index ∧ orLast (parseCreatedOn parse a.v) ≤ orLast (parseCreatedOn parse b.v)

section Rows

variable {g : String × List HistoryDot} (hg : g ∈ byDay parse offset events)

include hg

theorem group_eq :
    g.2 = (dotsOf parse offset events).filter fun d => dayOf parse offset d.v = g.1 :=
  (grouped_byDay parse offset events).elements g hg

theorem mem_group {d : HistoryDot} (h : d ∈ g.2) :
    d ∈ dotsOf parse offset events ∧ dayOf parse offset d.v = g.1 := by
  rw [group_eq hg] at h
  exact ⟨(List.mem_filter.mp h).1, of_decide_eq_true (List.mem_filter.mp h).2⟩

theorem exists_mem_group :
    ∃ d ∈ dotsOf parse offset events, dayOf parse offset d.v = g.1 := by
  obtain ⟨d, hd⟩ := List.exists_mem_of_ne_nil _ ((grouped_byDay parse offset events).ne_nil hg)
  exact ⟨d, mem_group hg hd⟩

theorem tracks_rowOf : Tracks g.2 (rowOf offset g.1 g.2).tracks := by
  refine tracks_tracksForDay ?_
  rw [group_eq hg]
  exact sorted_index.filter _

theorem countP_rowOf (p : HistoryDot → Bool) :
    (trackDots (rowOf offset g.1 g.2).tracks).countP p = g.2.countP p :=
  (tracks_rowOf hg).perm.countP_eq p

theorem date_rowOf (hyears : InYears parse offset events) {d : HistoryDot} (h : d ∈ g.2) :
    (rowOf offset g.1 g.2).date = dateOf parse offset d.v := by
  obtain ⟨hd, hday⟩ := mem_group hg h
  rw [← hday]
  exact rowOf_date hyears hd _

end Rows

/-- **No event is lost, doubled or misplaced.** -/
theorem layout_bucketByDay (parse : String → Option Int) (offset : Int)
    (events : List HistoryEvent)
    (hyears : ∀ v ∈ events, ∀ t, parseCreatedOn parse v = some t →
      FourDigits (localDay offset t)) :
    Layout parse offset events (bucketByDay parse offset events) := by
  obtain ⟨dated, undated, hperm, hrows, hlatest, hdated, hone, hundated⟩ :=
    bucketByDay_groups parse offset events
  have hmem : ∀ g ∈ dated ++ undated, g ∈ byDay parse offset events :=
    fun g hg => hperm.mem_iff.mp hg
  have hgroup : ∀ r ∈ bucketByDay parse offset events,
      ∃ g ∈ byDay parse offset events, r = rowOf offset g.1 g.2 := by
    intro r hr
    rw [hrows] at hr
    obtain ⟨g, hg, rfl⟩ := List.mem_map.mp hr
    exact ⟨g, hmem g hg, rfl⟩
  have hdots : (rowDots (bucketByDay parse offset events)).Perm (dotsOf parse offset events) := by
    rw [rowDots, hrows, List.flatMap_map]
    have htracks : ((dated ++ undated).flatMap fun g =>
        trackDots (rowOf offset g.1 g.2).tracks).Perm ((dated ++ undated).flatMap (·.2)) :=
      List.Perm.flatMap_left _ fun g hg => (tracks_rowOf (hmem g hg)).perm
    exact htracks.trans ((hperm.flatMap_right _).trans (flatMap_groupOn_perm _ _))
  have hdate : ∀ g ∈ byDay parse offset events, ∃ d ∈ dotsOf parse offset events,
      dayOf parse offset d.v = g.1 ∧ (rowOf offset g.1 g.2).date = dateOf parse offset d.v := by
    intro g hg
    obtain ⟨d, hd, hday⟩ := exists_mem_group hg
    exact ⟨d, hd, hday, hday ▸ rowOf_date hyears hd _⟩
  constructor
  case perm => exact (hdots.map _).trans (dotsOf_v parse offset events)
  case indexes =>
    rw [← dotsOf_index parse offset events]
    exact hdots.map _
  case count =>
    intro r hr
    obtain ⟨g, -, rfl⟩ := hgroup r hr
    have hle : (g.2.filter fun d => !d.v.isSave).length ≤ g.2.length := List.length_filter_le _ _
    unfold rowOf
    dsimp only
    omega
  case saves =>
    intro r hr
    obtain ⟨g, hg, rfl⟩ := hgroup r hr
    rw [countP_rowOf hg]
    have hall := List.length_eq_countP_add_countP (fun d : HistoryDot => d.v.isSave) (l := g.2)
    have hnot : (g.2.filter fun d => !d.v.isSave).length = g.2.countP fun d => !d.v.isSave :=
      List.countP_eq_length_filter.symm
    unfold rowOf
    dsimp only
    simp only [Bool.not_eq_true, Bool.decide_eq_false] at hall
    omega
  case changes =>
    intro r hr
    obtain ⟨g, hg, rfl⟩ := hgroup r hr
    rw [countP_rowOf hg, List.countP_eq_length_filter]
    rfl
  case total =>
    have hlen := (hperm.flatMap_right _).trans
      (flatMap_groupOn_perm (fun d => dayOf parse offset d.v) (dotsOf parse offset events))
    have hcount := hlen.length_eq
    rw [length_dotsOf, List.length_flatMap] at hcount
    rw [hrows, List.map_map, ← hcount]
    rfl
  case order =>
    refine ⟨dated.map fun g => rowOf offset g.1 g.2, undated.map fun g => rowOf offset g.1 g.2,
      ?_, ?_, ?_, ?_, ?_⟩
    · rw [hrows, List.map_append]
    · refine List.pairwise_map.mpr (hlatest.imp_of_mem fun {a b} ha hb hlt => ?_)
      obtain ⟨d, hd, hday, hdated'⟩ := hdate a (hmem a (List.mem_append_left _ ha))
      obtain ⟨e, he, hday', hdated''⟩ := hdate b (hmem b (List.mem_append_left _ hb))
      rw [← hday, ← hday'] at hlt
      obtain ⟨s, t, hs, ht, hst⟩ := dateOf_lt hyears he hd (hday' ▸ hdated b hb) hlt
      exact ⟨t, s, hdated'.trans ht, hdated''.trans hs, hst⟩
    · intro r hr
      obtain ⟨g, hg, rfl⟩ := List.mem_map.mp hr
      obtain ⟨d, -, hday, hdate⟩ := hdate g (hmem g (List.mem_append_left _ hg))
      rw [hdate, dateOf, Ne, Option.map_eq_none_iff]
      intro hnone
      have hne := hdated g hg
      rw [← hday, dayOf, hnone] at hne
      exact hne rfl
    · rwa [List.length_map]
    · intro r hr
      obtain ⟨g, hg, rfl⟩ := List.mem_map.mp hr
      exact ⟨hundated g hg, if_pos (hundated g hg)⟩
  case day =>
    intro r hr d hd
    obtain ⟨g, hg, rfl⟩ := hgroup r hr
    have hd := (tracks_rowOf hg).perm.mem_iff.mp hd
    exact ⟨(mem_group hg hd).2.symm, date_rowOf hg hyears hd⟩
  case tracks =>
    intro r hr
    obtain ⟨g, hg, rfl⟩ := hgroup r hr
    have hdots : (dotsOf parse offset events).filter
        (fun d => dayOf parse offset d.v = (rowOf offset g.1 g.2).day) = g.2 := (group_eq hg).symm
    rw [hdots]
    exact tracks_rowOf hg
  case sorted =>
    intro r hr t ht
    obtain ⟨g, hg, rfl⟩ := hgroup r hr
    have hsub := (tracks_rowOf hg).sublist t ht
    rw [group_eq hg] at hsub
    have hsub := hsub.trans List.filter_sublist
    exact (sorted_index.sublist hsub).and (sorted_time.sublist hsub)

/-- Two saves of one time and a change without one. -/
theorem layout_bucketByDay_equalTimes :
    let parse := fun s => if s = "2024-03-10T12:00:00Z" then some 1710072000000 else none
    let noon : Stamp :=
      { createdOn := some "2024-03-10T12:00:00Z", createdBy := some "Ann", createdById := some "a" }
    Layout parse 3600000 [.save 2 noon, .change { createdBy := some "Bob" }, .save 1 noon]
      (bucketByDay parse 3600000
        [.save 2 noon, .change { createdBy := some "Bob" }, .save 1 noon]) := by
  intro parse noon
  refine layout_bucketByDay parse 3600000 _ fun v hv t ht => ?_
  have hnoon : parseCreatedOn parse v = some t → t = 1710072000000 := by
    rcases List.mem_cons.mp hv with rfl | hv
    · exact fun h => (Option.some.inj h).symm
    · rcases List.mem_cons.mp hv with rfl | hv
      · intro h
        cases h
      · rw [List.mem_singleton.mp hv]
        exact fun h => (Option.some.inj h).symm
  rw [hnoon ht]
  decide +kernel

end Dots

end FusionLocalServer.History
