import FusionLocalServer.Tasks.Dependencies

/-!
# The schedules of tasks

A task has no dates or both, and then its start is not after its end; a milestone has one
date. Creating and updating a task check this, on dates of the years 0 to 9999, which is
what YYYY-MM-DD can write. `ShiftTasks` checks nothing about the dates it computes: a shift
out of those years writes a date that no longer reads back, and the task can then be neither
shifted back nor edited.

As long as no shift leaves the years 0 to 9999, every schedule stays as it should be, and
every task can be edited and shifted again (`schedules_ok`); the first shift that leaves them
breaks a schedule.
-/

namespace Tasks

open Lib (Time trimSpace parseDate formatDate endOfYears)
open FusionLocalServer.Storage

/-- What a task's schedule is to be. -/
structure ScheduleOk (t : TaskHeader) : Prop where
  dates : t.startDate = "" ∧ t.endDate = "" ∨
    ∃ a b, parseDate t.startDate.toList = some a ∧ parseDate t.endDate.toList = some b ∧ a ≤ b
  milestone : t.milestone = true → t.startDate ≠ "" ∧ t.startDate = t.endDate

/-- What a task's other fields are to be. -/
structure PlainOk (t : TaskVal) : Prop where
  title : t.title ≠ ""
  title_le : t.title.length ≤ MaxTitleRunes
  description : t.description.length ≤ MaxDescRunes
  status : t.status ∈ Statuses
  priority : t.priority ∈ Priorities
  dueDate : t.dueDate = "" ∨ IsDay t.dueDate
  docRefs_le : t.docRefs.length ≤ MaxDocRefs
  docRefs : ∀ ref ∈ t.docRefs, DocRefOk ref
  progress : 0 ≤ t.progress ∧ t.progress ≤ 100
  stage : t.stage.length ≤ MaxStageRunes

/-! ## The check of the fields -/

theorem parseDate_empty : parseDate "".toList = none := by decide

/-- Both dates share one format, so string order is date order. -/
theorem dates_iff {s e : String} :
    ¬ (s = "") ≠ (e = "") ∧ ¬ (s ≠ "" ∧ ¬ IsDay s) ∧ ¬ (s ≠ "" ∧ ¬ IsDay e) ∧
        ¬ (s ≠ "" ∧ e < s) ↔
      s = "" ∧ e = "" ∨
        ∃ a b, parseDate s.toList = some a ∧ parseDate e.toList = some b ∧ a ≤ b := by
  constructor
  · rintro ⟨hboth, hstart, hend, horder⟩
    rw [ne_eq, not_not] at hboth
    by_cases hs : s = ""
    · exact .inl ⟨hs, hboth ▸ hs⟩
    · refine .inr ?_
      obtain ⟨a, ha⟩ := Option.ne_none_iff_exists'.mp (not_not.mp fun h => hstart ⟨hs, h⟩)
      obtain ⟨b, hb⟩ := Option.ne_none_iff_exists'.mp (not_not.mp fun h => hend ⟨hs, h⟩)
      exact ⟨a, b, ha, hb, (Lib.parseDate_le ha hb).mpr fun hlt => horder ⟨hs, hlt⟩⟩
  · rintro (⟨rfl, rfl⟩ | ⟨a, b, ha, hb, hle⟩)
    · exact ⟨fun h => h rfl, fun h => h.1 rfl, fun h => h.1 rfl, fun h => h.1 rfl⟩
    · have hne : ∀ {x : String} {n : Int}, parseDate x.toList = some n → x ≠ "" := by
        rintro x n hx rfl
        rw [parseDate_empty] at hx
        cases hx
      have hday : ∀ {x : String} {n : Int}, parseDate x.toList = some n → IsDay x := by
        intro x n hx
        unfold IsDay
        rw [hx]
        exact Option.some_ne_none n
      refine ⟨?_, fun h => h.2 (hday ha), fun h => h.2 (hday hb), fun h =>
        (Lib.parseDate_le ha hb).mp hle h.2⟩
      rw [ne_eq, not_not, eq_iff_iff]
      exact ⟨fun h => absurd h (hne ha), fun h => absurd h (hne hb)⟩

/-- What the check of the fields comes to. -/
theorem fieldsOk_iff {t : TaskVal} : FieldsOk t ↔ PlainOk t ∧ ScheduleOk t.toTaskHeader := by
  unfold FieldsOk validateFields
  simp only [Lib.refuse_bind_iff, Lib.refuse_iff]
  constructor
  · rintro ⟨h1, h2, h3, h4, h5, h6, h7, h8, h9, h10, h11, h12, h13, h14, h15, h16⟩
    refine ⟨⟨h1, Nat.not_lt.mp h2, Nat.not_lt.mp h3, not_not.mp h4, not_not.mp h5, ?_,
      Nat.not_lt.mp h7, ?_, ?_, Nat.not_lt.mp h16⟩, dates_iff.mp ⟨h9, h10, h11, h12⟩, ?_⟩
    · rwa [not_and_or, not_not, not_not] at h6
    · intro ref href
      by_contra hcon
      exact h8 ⟨ref, href, hcon⟩
    · have hprogress : t.schedule.progress = t.progress := rfl
      rw [hprogress] at h13
      omega
    · intro hm
      refine ⟨fun hs => h14 ⟨hm, hs⟩, ?_⟩
      by_contra hne
      exact h15 ⟨hm, fun heq => hne heq.symm⟩
  · rintro ⟨⟨h1, h2, h3, h4, h5, h6, h7, h8, h13, h16⟩, hdates, hmilestone⟩
    obtain ⟨h9, h10, h11, h12⟩ := dates_iff.mpr hdates
    refine ⟨h1, Nat.not_lt.mpr h2, Nat.not_lt.mpr h3, not_not.mpr h4, not_not.mpr h5, ?_,
      Nat.not_lt.mpr h7, ?_, h9, h10, h11, h12, ?_, ?_, ?_, Nat.not_lt.mpr h16⟩
    · rwa [not_and_or, not_not, not_not]
    · rintro ⟨ref, href, hbad⟩
      exact hbad (h8 ref href)
    · have hprogress : t.schedule.progress = t.progress := rfl
      rw [hprogress]
      omega
    · rintro ⟨hm, hs⟩
      exact (hmilestone hm).1 hs
    · rintro ⟨hm, hne⟩
      exact hne (hmilestone hm).2.symm

/-- A token that is trimmed is as good as before. -/
theorem docRefOk_trimSpace {ref : String} (h : DocRefOk ref) : DocRefOk (trimSpace ref) := by
  obtain ⟨⟨p, hp, hprefix⟩, hsize⟩ := h
  refine ⟨⟨p, hp, ?_⟩, Nat.le_trans (Lib.utf8ByteSize_trimSpace_le ref) hsize⟩
  have hends : ∀ p ∈ docRefPrefixes, ∃ hne : p.toList ≠ [],
      Lib.isSpace (p.toList.head hne) = false ∧ Lib.isSpace (p.toList.getLast hne) = false := by
    decide
  obtain ⟨hne, hhead, hlast⟩ := hends p hp
  unfold trimSpace
  rw [String.toList_ofList]
  exact Lib.prefix_trimChars hprefix hne hhead hlast

theorem fieldsOk_normalize {t : TaskVal} {refs : List String}
    (h : FieldsOk { t with docRefs := refs })
    (hrefs : t.docRefs = refs ∨ t.docRefs = normalizeDocRefs refs) : FieldsOk t := by
  rcases hrefs with rfl | hrefs
  · exact h
  · obtain ⟨⟨h1, h2, h3, h4, h5, h6, h7, h8, h9, h10⟩, hschedule⟩ := fieldsOk_iff.mp h
    refine fieldsOk_iff.mpr ⟨⟨h1, h2, h3, h4, h5, h6, ?_, ?_, h9, h10⟩, hschedule⟩
    · rw [hrefs]
      refine Nat.le_trans (List.length_filter_le _ _) ?_
      rw [List.length_map]
      exact h7
    · intro ref href
      rw [hrefs] at href
      obtain ⟨ref', href', rfl⟩ := List.mem_map.mp (List.mem_filter.mp href).1
      exact docRefOk_trimSpace (h8 ref' href')

/-! ## Shifts -/

/-- The date, if it is one, stays in the years 0 to 9999. -/
def InYears (day : String) (days : Int) : Prop :=
  ∀ n, parseDate day.toList = some n → 0 ≤ n + days ∧ n + days < endOfYears

instance (day : String) (days : Int) : Decidable (InYears day days) :=
  match h : parseDate day.toList with
  | none => .isTrue fun n hn => by rw [h] at hn; cases hn
  | some n =>
    if hin : 0 ≤ n + days ∧ n + days < endOfYears then
      .isTrue fun k hk => by rw [h] at hk; cases hk; exact hin
    else .isFalse fun hall => hin (hall n h)

theorem shiftDay_of_date {day : String} {days n : Int} (h : parseDate day.toList = some n) :
    shiftDay day days = String.ofList (formatDate (n + days)) := by
  unfold shiftDay
  rw [h]

theorem parseDate_shiftDay {day : String} {days n : Int} (h : parseDate day.toList = some n)
    (hin : InYears day days) : parseDate (shiftDay day days).toList = some (n + days) := by
  obtain ⟨hlo, hhi⟩ := hin n h
  rw [shiftDay_of_date h, String.toList_ofList]
  exact Lib.parseDate_formatDate hlo hhi

theorem shiftDay_ne_empty {day : String} {days n : Int} (h : parseDate day.toList = some n) :
    shiftDay day days ≠ "" := by
  rw [shiftDay_of_date h]
  intro hempty
  have hlen := congrArg (fun s => s.toList.length) hempty
  simp [formatDate] at hlen

/-- A schedule stays as it should be when it is moved, exactly if it stays in the years. -/
theorem scheduleOk_shift {t : TaskHeader} {now : Time} {days : Int} (h : ScheduleOk t) :
    ScheduleOk (shiftFields now days t) ↔ InYears t.startDate days ∧ InYears t.endDate days := by
  obtain ⟨hdates, hmilestone⟩ := h
  constructor
  · rintro ⟨hdates', -⟩
    rcases hdates with ⟨hs, he⟩ | ⟨a, b, ha, hb, hle⟩
    · refine ⟨fun n hn => ?_, fun n hn => ?_⟩
      · rw [hs, parseDate_empty] at hn
        cases hn
      · rw [he, parseDate_empty] at hn
        cases hn
    · have hreads : ∀ {day : String} {n k : Int}, parseDate day.toList = some n →
          parseDate (shiftDay day days).toList = some k → InYears day days := by
        intro day n k hn hk m hm
        rw [hn] at hm
        cases hm
        rw [shiftDay_of_date hn, String.toList_ofList] at hk
        exact Lib.parseDate_formatDate_iff.mp (hk ▸ Option.some_ne_none k)
      rcases hdates' with ⟨hempty, -⟩ | ⟨a', b', ha', hb', -⟩
      · exact absurd hempty (shiftDay_ne_empty ha)
      · exact ⟨hreads ha ha', hreads hb hb'⟩
  · rintro ⟨hstart, hend⟩
    refine ⟨?_, fun hm => ?_⟩
    · rcases hdates with ⟨hs, he⟩ | ⟨a, b, ha, hb, hle⟩
      · refine .inl ⟨?_, ?_⟩
        · show shiftDay t.startDate days = ""
          rw [hs]
          rfl
        · show shiftDay t.endDate days = ""
          rw [he]
          rfl
      · exact .inr ⟨a + days, b + days, parseDate_shiftDay ha hstart, parseDate_shiftDay hb hend,
          by omega⟩
    · obtain ⟨hne, heq⟩ := hmilestone hm
      refine ⟨?_, congrArg (shiftDay · days) heq⟩
      rcases hdates with ⟨hs, -⟩ | ⟨a, b, ha, -, -⟩
      · exact absurd hs hne
      · exact shiftDay_ne_empty ha

/-- The tasks at the places found are moved, the others stay. -/
theorem getElem?_shift (now : Time) (days : Int) {taskIDs : List String} {places : List Nat}
    {pf : FileVal} (h : findScheduled pf (normalizeDependsOn taskIDs) = .ok places) (k : Nat) :
    (places.foldl (fun ts i => ts.modify i fun t =>
        { t with toTaskHeader := shiftFields now days t.toTaskHeader }) pf.tasks)[k]? =
      if k ∈ places then
        pf.tasks[k]?.map fun t => { t with toTaskHeader := shiftFields now days t.toTaskHeader }
      else pf.tasks[k]? :=
  getElem?_modifyEach _ ((findScheduled_ok h).2.2 (nodup_normalizeDependsOn taskIDs)) _ k

/-- A shift that goes through keeps the dates it moves in the years 0 to 9999. -/
def ShiftInYears (pf : FileVal) (e : Event) : Prop :=
  ∀ taskIDs days fop c, e.op = .shiftTasks taskIDs days →
    shiftTasks e.env.now taskIDs days = .ok fop → fop pf = .ok c →
    (e.env.dirFails || e.env.saveFails) = false →
    ∀ t ∈ pf.tasks, t.id ∈ normalizeDependsOn taskIDs →
      InYears t.startDate days ∧ InYears t.endDate days

/-- The fields of every task stay as a check would have them. -/
theorem fieldsOk_rule : FileRule (fun pf => ∀ t ∈ pf.tasks, FieldsOk t) ShiftInYears where
  new _ _ := fun t ht => (nomatch ht)
  header _ _ _ h := h
  mutation := by
    rintro ⟨env, op⟩ fop pf c hfop hc hsaves hyears h
    cases op with
    | create hubID projectName d createdBy =>
      obtain ⟨t, -, -, -, -, ⟨refs, hfields, hrefs⟩, happly⟩ := create_ok (Option.some.inj hfop) hc
      rw [happly]
      intro u hu
      rcases List.mem_append.mp hu with hu | hu
      · exact h u hu
      · rw [List.mem_singleton.mp hu]
        exact fieldsOk_normalize hfields (.inr hrefs)
    | update taskID p =>
      cases hfop
      obtain ⟨i, t, t', -, -, -, -, -, ⟨refs, hfields, hrefs⟩, happly⟩ := update_ok hc
      rw [happly]
      intro u hu
      rcases List.mem_or_eq_of_mem_set hu with hu | rfl
      · exact h u hu
      · exact fieldsOk_normalize hfields hrefs
    | delete taskID =>
      cases hfop
      obtain ⟨i, t, -, -, happly⟩ := delete_ok hc
      rw [happly]
      intro u hu
      obtain ⟨v, hv, rfl⟩ := List.mem_map.mp hu
      exact h v (List.mem_of_mem_eraseIdx hv)
    | shiftTasks taskIDs days =>
      have hshift : shiftTasks env.now taskIDs days = .ok fop := Option.some.inj hfop
      obtain ⟨places, hplaces, happly⟩ := shiftTasks_ok hshift hc
      rw [happly]
      intro u hu
      obtain ⟨k, hk⟩ := List.getElem?_of_mem hu
      rw [getElem?_shift _ _ hplaces] at hk
      split at hk
      · next hmem =>
        obtain ⟨t, hget, rfl⟩ := Option.map_eq_some_iff.mp hk
        obtain ⟨t', hget', hlisted, -⟩ := (findScheduled_ok hplaces).1 k hmem
        rw [hget] at hget'
        cases hget'
        have ht := List.mem_of_getElem? hget
        obtain ⟨hplain, hschedule⟩ := fieldsOk_iff.mp (h t ht)
        refine fieldsOk_iff.mpr ⟨?_, (scheduleOk_shift hschedule).mpr
          (hyears taskIDs days fop c rfl hshift hc hsaves t ht hlisted)⟩
        obtain ⟨h1, h2, h3, h4, h5, h6, h7, h8, h9, h10⟩ := hplain
        exact ⟨h1, h2, h3, h4, h5, h6, h7, h8, h9, h10⟩
      · exact h u (List.mem_of_getElem? hk)
    | read => cases hfop
    | reset => cases hfop
    | deleteProject r => cases hfop

/-! ## Tasks can be edited and shifted again -/

/-- Every schedule of the project is as it should be, in memory and on disk. -/
def Scheduled (p : Project) : Prop := Holds (fun pf => ∀ t ∈ pf.tasks, ScheduleOk t.toTaskHeader) p

/-- The values a patch gives are in order on their own. It does not set the dates or what the
task depends on, but may clear the schedule. -/
structure Patch.Plain (p : Patch) : Prop where
  title : ∀ x ∈ p.title, trimSpace x ≠ "" ∧ (trimSpace x).length ≤ MaxTitleRunes
  description : ∀ x ∈ p.description, x.length ≤ MaxDescRunes
  status : ∀ x ∈ p.status, x ∈ Statuses
  priority : ∀ x ∈ p.priority, x ∈ Priorities
  dueDate : ∀ x ∈ p.dueDate, x = "" ∨ IsDay x
  docRefs : ∀ refs ∈ p.docRefs, refs.length ≤ MaxDocRefs ∧ ∀ ref ∈ refs, DocRefOk ref
  progress : ∀ x ∈ p.progress, 0 ≤ x ∧ x ≤ 100
  stage : ∀ x ∈ p.stage, (trimSpace x).length ≤ MaxStageRunes
  dates : p.startDate = none ∧ p.endDate = none ∧ p.milestone = none
  dependsOn : p.dependsOn = none

/-- What holds of a value given, and of the one there is, holds of the one that results. -/
theorem getD_of {α : Type} {P : α → Prop} {o : Option α} {x : α} (h : ∀ y ∈ o, P y) (hx : P x) :
    P (o.getD x) := by
  cases o with
  | none => exact hx
  | some y => exact h y rfl

/-- The dates stay the task's own, or are cleared. -/
theorem Patch.Plain.schedule {p : Patch} (hp : p.Plain) {t : TaskHeader} (ht : ScheduleOk t) :
    ScheduleOk (p.fields t) := by
  obtain ⟨hs, he, hm⟩ := hp.dates
  obtain ⟨hdates, hmilestone⟩ := ht
  have hend : (if t.milestone = true ∧ t.startDate ≠ "" then t.startDate else t.endDate) =
      t.endDate := by
    split
    · next hcond => exact (hmilestone hcond.1).2
    · rfl
  unfold Patch.fields
  rw [hs, he, hm]
  cases p.clearSchedule with
  | true => exact ⟨.inl ⟨rfl, rfl⟩, fun h => (nomatch h)⟩
  | false =>
    simp only [Option.getD_none, Bool.false_eq_true, if_false]
    rw [hend]
    exact ⟨hdates, hmilestone⟩

/-- The fields that result from such a patch are in order. -/
theorem Patch.Plain.fields {p : Patch} (hp : p.Plain) {t : TaskVal} (ht : FieldsOk t) :
    validateFields (p.fields t.toTaskHeader).title (p.fields t.toTaskHeader).description
      (p.status.getD t.status) (p.fields t.toTaskHeader).priority
      (p.fields t.toTaskHeader).dueDate (p.docRefs.getD t.docRefs)
      (p.fields t.toTaskHeader).schedule = .ok () := by
  obtain ⟨⟨h1, h2, h3, h4, h5, h6, h7, h8, h9, h10⟩, hschedule⟩ := fieldsOk_iff.mp ht
  have htrim : ∀ {P : String → Prop} {o : Option String} {x : String},
      (∀ y ∈ o, P (trimSpace y)) → P x → P ((o.map trimSpace).getD x) := by
    intro P o x h hx
    cases o with
    | none => exact hx
    | some y => exact h y rfl
  have hdue : ∀ {x : String}, x = "" ∨ IsDay x → (if p.clearDueDate then "" else x) = "" ∨
      IsDay (if p.clearDueDate then "" else x) := by
    intro x hx
    split
    · exact .inl rfl
    · exact hx
  refine fieldsOk_iff (t := { t with
    toTaskHeader := { p.fields t.toTaskHeader with status := p.status.getD t.status }
    docRefs := p.docRefs.getD t.docRefs }).mpr ⟨⟨?_, ?_, ?_, ?_, ?_, ?_, ?_, ?_, ?_, ?_⟩, ?_⟩
  · exact htrim (P := fun x => x ≠ "") (fun y hy => (hp.title y hy).1) h1
  · exact htrim (P := fun x => x.length ≤ MaxTitleRunes) (fun y hy => (hp.title y hy).2) h2
  · exact getD_of (P := fun x : String => x.length ≤ MaxDescRunes) hp.description h3
  · exact getD_of (P := fun x => x ∈ Statuses) hp.status h4
  · exact getD_of (P := fun x => x ∈ Priorities) hp.priority h5
  · exact hdue (getD_of (P := fun x => x = "" ∨ IsDay x) hp.dueDate h6)
  · exact getD_of (P := fun refs : List String => refs.length ≤ MaxDocRefs)
      (fun y hy => (hp.docRefs y hy).1) h7
  · exact getD_of (P := fun refs : List String => ∀ ref ∈ refs, DocRefOk ref)
      (fun y hy => (hp.docRefs y hy).2) h8
  · exact getD_of (P := fun x : Int => 0 ≤ x ∧ x ≤ 100) hp.progress h9
  · exact htrim (P := fun x => x.length ≤ MaxStageRunes) hp.stage h10
  · obtain ⟨hdates, hmilestone⟩ := hp.schedule hschedule
    exact ⟨hdates, hmilestone⟩

section Accepted

variable {pf : FileVal} {now : Time}

variable (now) in
theorem update_accepted (h : ∀ t ∈ pf.tasks, FieldsOk t) {t : TaskVal} (ht : t ∈ pf.tasks)
    {p : Patch} (hp : p.Plain) : ∃ c, update now t.id p pf = .ok c := by
  unfold update
  cases hidx : pf.tasks.findIdx? fun u => u.id = t.id with
  | none =>
    have := List.findIdx?_eq_none_iff.mp hidx t ht
    exact absurd rfl (of_decide_eq_false this)
  | some i =>
    obtain ⟨u, hget, -⟩ := Lib.findIdx_ok hidx
    dsimp only
    rw [hget]
    dsimp only
    rw [hp.fields (h u (List.mem_of_getElem? hget)), hp.dependsOn]
    exact ⟨_, rfl⟩

theorem findScheduled_accepted {ids : List String}
    (h : ∀ id ∈ ids, ∃ t ∈ pf.tasks, t.id = id) (hdates : ∀ t ∈ pf.tasks, t.id ∈ ids → t.startDate ≠ "") :
    ∃ places, findScheduled pf ids = .ok places := by
  induction ids with
  | nil => exact ⟨[], rfl⟩
  | cons id ids ih =>
    obtain ⟨places, hplaces⟩ := ih (fun id' hid' => h id' (List.mem_cons_of_mem _ hid'))
      fun t ht hid' => hdates t ht (List.mem_cons_of_mem _ hid')
    rw [findScheduled]
    cases hidx : pf.tasks.findIdx? fun u => u.id = id with
    | none =>
      obtain ⟨t, ht, hid⟩ := h id List.mem_cons_self
      exact absurd hid (of_decide_eq_false (List.findIdx?_eq_none_iff.mp hidx t ht))
    | some i =>
      obtain ⟨u, hget, hid⟩ := Lib.findIdx_ok hidx
      have hid : u.id = id := of_decide_eq_true hid
      have hne := hdates u (List.mem_of_getElem? hget) (hid ▸ List.mem_cons_self)
      refine ⟨i :: places, ?_⟩
      dsimp only
      rw [Lib.refuse_bind_iff, hplaces, hget]
      exact ⟨fun hempty => hne (Option.some.inj hempty), rfl⟩

variable (now) in
theorem shiftTasks_accepted {taskIDs : List String} {days : Int} (hzero : days ≠ 0)
    (hlo : -MaxShiftDays ≤ days) (hhi : days ≤ MaxShiftDays)
    (hsome : normalizeDependsOn taskIDs ≠ [])
    (h : ∀ id ∈ normalizeDependsOn taskIDs, ∃ t ∈ pf.tasks, t.id = id)
    (hdates : ∀ t ∈ pf.tasks, t.id ∈ normalizeDependsOn taskIDs → t.startDate ≠ "") :
    ∃ op, shiftTasks now taskIDs days = .ok op ∧ ∃ c, op pf = .ok c := by
  obtain ⟨places, hplaces⟩ := findScheduled_accepted h hdates
  refine ⟨fun pf => do
    let places ← findScheduled pf (normalizeDependsOn taskIDs)
    pure { edits := places.map fun i => .onTask i (.fields (shiftFields now days))
           returned := places }, ?_, ?_⟩
  · unfold shiftTasks
    rw [Lib.refuse_bind_iff]
    refine ⟨by omega, ?_⟩
    dsimp only
    rw [Lib.refuse_bind_iff]
    exact ⟨hsome, rfl⟩
  · dsimp only
    rw [hplaces]
    exact ⟨_, rfl⟩

end Accepted

/-! ## Runs -/

section Runs

variable {projectID : String} {s : State}

/-- A mutation that nothing holds up goes through. -/
theorem Project.exec_accepted {p : Project} {env : Env} {pf : FileVal} {op : Op} {fop : FileOp}
    (hload : p.loaded env projectID = .ok pf) (hop : op.mutation env.now = some (.ok fop))
    (hsaves : (env.dirFails || env.saveFails) = false) {c : Mutation} (hc : fop pf = .ok c) :
    p.exec env projectID op =
      ({ file := some (stamped env (applyFile c.edits pf))
         disk := some (stamped env (applyFile c.edits pf)) },
        .ok (tasksAt c.returned (stamped env (applyFile c.edits pf)))) := by
  unfold exec
  rw [hop]
  dsimp only
  unfold mutate
  rw [hload]
  dsimp only
  rw [hc, hsaves]
  rfl

/-- A shift that goes through and leaves the years breaks a schedule. -/
theorem shiftInYears_of_scheduled {p : Project} (hdeps : Holds TasksOk p)
    (hfields : Holds (fun pf => ∀ t ∈ pf.tasks, FieldsOk t) p) {e : Event}
    (h : Scheduled (p.exec e.env projectID e.op).1) : Admits projectID ShiftInYears p e := by
  intro pf hload taskIDs days fop c hop hshift hc hsaves t ht hlisted
  have hpf := fieldsOk_rule.loaded hfields hload
  have hids := (tasksOk_rule.loaded hdeps hload).ids
  rw [Project.exec_accepted hload (by rw [hop]; exact congrArg some hshift) hsaves hc] at h
  obtain ⟨places, hplaces, happly⟩ := shiftTasks_ok hshift hc
  obtain ⟨i, hi, u, hget, hid⟩ := (findScheduled_ok hplaces).2.1 _ hlisted
  obtain rfl := eq_of_id hids (List.mem_of_getElem? hget) ht hid
  have hmoved := getElem?_shift e.env.now days hplaces i
  rw [if_pos hi, hget] at hmoved
  have hschedule := h _ (.inr rfl) _ (by
    show _ ∈ (applyFile c.edits pf).tasks
    rw [happly]
    exact List.mem_of_getElem? hmoved)
  exact (scheduleOk_shift (fieldsOk_iff.mp (hpf u ht)).2).mp hschedule

/-- **As long as no shift leaves the years 0 to 9999, every schedule is as it should be**, in
memory and on disk; the next operation keeps it so exactly if it is no such shift. Every task
can then be edited, and every task with dates be shifted by any number of days admitted. -/
theorem schedules_ok {es : List Event}
    (hrun : Lib.Run (State.Happens projectID)
      (fun s e => Admits projectID ShiftInYears s.view e) .init es s) :
    Scheduled s.view ∧
      (∀ e, Scheduled (s.exec e.env projectID e.op).1.view ↔
        Admits projectID ShiftInYears s.view e) ∧
      ∀ env pf, s.view.loaded env projectID = .ok pf →
        (env.dirFails || env.saveFails) = false →
        (∀ t ∈ pf.tasks, ∀ p : Patch, p.Plain →
          ∃ ts, (s.exec env projectID (.update t.id p)).2 = .ok ts) ∧
        ∀ taskIDs days, days ≠ 0 → -MaxShiftDays ≤ days → days ≤ MaxShiftDays →
          normalizeDependsOn taskIDs ≠ [] →
          (∀ id ∈ normalizeDependsOn taskIDs, ∃ t ∈ pf.tasks, t.id = id) →
          (∀ t ∈ pf.tasks, t.id ∈ normalizeDependsOn taskIDs → t.startDate ≠ "") →
          ∃ ts, (s.exec env projectID (.shiftTasks taskIDs days)).2 = .ok ts := by
  have hfields := fieldsOk_rule.holds hrun
  have hfree : Lib.Run (State.Happens projectID)
      (fun s e => Admits projectID (fun _ _ => True) s.view e) .init es s :=
    hrun.mono fun _ _ _ _ _ => trivial
  have hdeps := tasksOk_rule.holds hfree
  have hok := (State.run_refines hrun State.init_ok).1
  have hscheduled : ∀ {p}, Holds (fun pf => ∀ t ∈ pf.tasks, FieldsOk t) p → Scheduled p :=
    fun h pf hpf t ht => (fieldsOk_iff.mp (h pf hpf t ht)).2
  refine ⟨hscheduled hfields, fun e => ?_, fun env pf hload hsaves => ⟨fun t ht p hp => ?_, ?_⟩⟩
  · rw [(State.exec_refines hok e.env projectID e.op).view]
    constructor
    · exact shiftInYears_of_scheduled hdeps hfields
    · exact fun h => hscheduled (fieldsOk_rule.exec hfields e h)
  · obtain ⟨c, hc⟩ := update_accepted env.now (fieldsOk_rule.loaded hfields hload) ht hp
    rw [(State.exec_refines hok env projectID _).result,
      Project.exec_accepted hload rfl hsaves hc]
    exact ⟨_, rfl⟩
  · intro taskIDs days hzero hlo hhi hsome hthere hdates
    obtain ⟨op, hop, c, hc⟩ := shiftTasks_accepted env.now hzero hlo hhi hsome hthere hdates
    rw [(State.exec_refines hok env projectID _).result,
      Project.exec_accepted hload (show (Op.shiftTasks taskIDs days).mutation env.now = _ from
        congrArg some hop) hsaves hc]
    exact ⟨_, rfl⟩

end Runs

/-- The error of an operation that was refused. -/
def refusal : Result → Option Err
  | .error e => some e
  | .ok _ => none

def someone : UserRef := { id := "u", name := "U", email := "" }

/-- A milestone, and another task without dates. -/
def planned : State :=
  after "p" (calls [
    .create "h" "P" { title := "launch", startDate := "2026-03-01", milestone := true } someone,
    .create "h" "P" { title := "plan" } someone]) .init

theorem schedules_ok_planned :
    Scheduled (planned.exec { now := 2 } "p" (.shiftTasks ["t1"] 30)).1.view ∧
      ∃ ts, (planned.exec { now := 2 } "p" (.update "t2" {})).2 = .ok ts := by
  have hrun : Lib.Run (State.Happens "p") (fun s e => Admits "p" ShiftInYears s.view e) .init
      _ planned :=
    Lib.Run.foldl _ (fun s e he pf _ => by
      rintro taskIDs days fop c hop
      rcases List.mem_cons.mp he with rfl | he
      · cases hop
      · rw [List.mem_singleton.mp he] at hop
        cases hop) State.init
  obtain ⟨-, hnext, hlater⟩ := schedules_ok hrun
  have hcheck : (match planned.view.loaded { now := 2 } "p" with
      | .ok pf => decide ((∀ t ∈ pf.tasks, InYears t.startDate 30 ∧ InYears t.endDate 30) ∧
          ∃ t ∈ pf.tasks, t.id = "t2")
      | .error _ => false) = true := by decide +kernel
  cases hload : planned.view.loaded { now := 2 } "p" with
  | error e =>
    rw [hload] at hcheck
    cases hcheck
  | ok pf =>
    rw [hload] at hcheck
    obtain ⟨hyears, t, ht, hid⟩ := of_decide_eq_true hcheck
    refine ⟨(hnext { env := { now := 2 }, op := .shiftTasks ["t1"] 30 }).mpr ?_, ?_⟩
    · rintro pf' hload' taskIDs days fop c hop - - - u hu -
      cases hop
      cases hload.symm.trans hload'
      exact hyears u hu
    · refine hid ▸ (hlater _ pf hload rfl).1 t ht {} ⟨?_, ?_, ?_, ?_, ?_, ?_, ?_, ?_, ⟨rfl, rfl, rfl⟩, rfl⟩
      all_goals exact fun x hx => (nomatch hx)

/-- A task on the last day that can be written, moved by one. -/
def lastDay : State :=
  after "p" (calls [
    .create "h" "P" { title := "far", startDate := "9999-12-31", endDate := "9999-12-31" } someone,
    .shiftTasks ["t1"] 1]) .init

/-- The schedule on disk is lost: its dates do not read back, the task cannot be edited, and
moving it back does nothing. -/
theorem schedule_lost :
    (∃ es, Lib.Run (State.Happens "p") Lib.always .init es lastDay) ∧
      lastDay.disk.map (fun pf => pf.tasks.map fun t => (t.startDate, t.endDate)) =
        some [("10000-01-01", "10000-01-01")] ∧
      ¬ Scheduled lastDay.view ∧
      refusal (lastDay.exec { now := 2 } "p" (.update "t1" {})).2 =
        some (.invalid "start date must be YYYY-MM-DD") ∧
      (lastDay.exec { now := 2 } "p" (.shiftTasks ["t1"] (-1))).1.disk.map
          (fun pf => pf.tasks.map fun t => (t.startDate, t.endDate)) =
        some [("10000-01-01", "10000-01-01")] := by
  refine ⟨⟨_, run_after ..⟩, by decide +kernel, ?_, by decide +kernel, by decide +kernel⟩
  intro h
  have hcheck : lastDay.view.disk.any (fun pf =>
      decide (∃ t ∈ pf.tasks, t.startDate ≠ "" ∧ parseDate t.startDate.toList = none)) = true := by
    decide +kernel
  cases hdisk : lastDay.view.disk with
  | none =>
    rw [hdisk] at hcheck
    cases hcheck
  | some pf =>
    rw [hdisk] at hcheck
    obtain ⟨t, ht, hne, hnone⟩ := of_decide_eq_true hcheck
    rcases (h pf (.inr hdisk) t ht).dates with ⟨hempty, -⟩ | ⟨a, b, ha, -, -⟩
    · exact hne hempty
    · rw [hnone] at ha
      cases ha

end Tasks
