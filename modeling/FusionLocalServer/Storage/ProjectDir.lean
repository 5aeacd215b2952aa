import FusionLocalServer.Lib.Path

/-!
# Project directories and project deletion

The chat, tasks, production and whiteboards stores of a hub profile each keep one
directory per project: `filepath.Join(s.dir, sanitizeID(projectID))`. `sanitizeID` is
the same function in all four (`production/store.go`, copied verbatim by its
siblings), and `DeleteProject` ends in `os.RemoveAll` of that directory, reached from
`handleAdminProjectDataDelete` with the `projectId` query parameter.

The filter keeps dots, so the ids `.` and `..` come through it unchanged and the join
cleans them into the store's own directory and into the hub profile. For every other
id the derived directory is a direct child of the store's
(`sanitizeID_plain`, `projectDir_child`).
-/

namespace FusionLocalServer.Storage

open Lib Lib.Path

/-! ## The slug of a project id -/

/-- The characters `sanitizeID` keeps. -/
def safeRune (r : Char) : Bool :=
  ('A' ≤ r && r ≤ 'Z') || ('a' ≤ r && r ≤ 'z') || ('0' ≤ r && r ≤ '9') ||
    r = '_' || r = '.' || r = '-'

/-- What `sanitizeID` writes for one character. -/
def sanitizeRune (r : Char) : Char := if safeRune r then r else '_'

/-- The longest slug: the source cuts the result at 120 bytes, all of them ASCII. -/
def maxSlug : Nat := 120

/-- `sanitizeID`: the directory name of a project id. -/
def sanitizeID (id : String) : String :=
  if id = "" then "_unset"
  else
    let out := id.toList.map sanitizeRune
    String.ofList (if out.length > maxSlug then out.take maxSlug else out)

theorem sanitizeRune_ne_slash (r : Char) : sanitizeRune r ≠ '/' := by
  unfold sanitizeRune
  split
  · rintro rfl
    contradiction
  · decide

/-- A dot in the slug was a dot in the id. -/
theorem sanitizeRune_eq_dot {r : Char} (h : sanitizeRune r = '.') : r = '.' := by
  unfold sanitizeRune at h
  split at h
  · exact h
  · exact absurd h (by decide)

theorem sanitizeID_toList {id : String} (h : id ≠ "") :
    (sanitizeID id).toList = (id.toList.map sanitizeRune).take maxSlug := by
  rw [sanitizeID, if_neg h]
  dsimp only
  rw [String.toList_ofList]
  split
  · rfl
  · rw [List.take_of_length_le (by omega)]

theorem sanitizeID_no_slash (id : String) : '/' ∉ (sanitizeID id).toList := by
  by_cases h : id = ""
  · subst h
    decide
  · rw [sanitizeID_toList h]
    intro hmem
    obtain ⟨r, -, hr⟩ := List.mem_map.mp (List.mem_of_mem_take hmem)
    exact sanitizeRune_ne_slash r hr

/-- A short slug made of dots comes from the id that is those dots: no other character
becomes a dot, and the cut at `maxSlug` only produces long slugs. -/
theorem eq_of_sanitizeID_dots {id dots : String} (hall : dots.toList.all (· = '.') = true)
    (hlen : dots.toList.length < maxSlug) (h : sanitizeID id = dots) : id = dots := by
  have hdots : ∀ c ∈ dots.toList, c = '.' := fun c hc =>
    of_decide_eq_true (List.all_eq_true.mp hall c hc)
  by_cases hid : id = ""
  · subst hid
    subst h
    exact absurd (hdots '_' (by decide)) (by decide)
  · have hlist : (id.toList.map sanitizeRune).take maxSlug = dots.toList := by
      rw [← sanitizeID_toList hid, h]
    have hshort : (id.toList.map sanitizeRune).length ≤ maxSlug := by
      have := congrArg List.length hlist
      rw [List.length_take] at this
      omega
    rw [List.take_of_length_le hshort] at hlist
    have hall : ∀ r ∈ id.toList, r = '.' := fun r hr =>
      sanitizeRune_eq_dot (hdots _ (hlist ▸ List.mem_map_of_mem hr))
    have hsame : id.toList.map sanitizeRune = id.toList := by
      conv_rhs => rw [← List.map_id id.toList]
      refine List.map_congr_left fun r hr => ?_
      rw [hall r hr]
      rfl
    rw [hsame] at hlist
    exact String.toList_inj.mp hlist

theorem sanitizeID_eq_dot {id : String} (h : sanitizeID id = ".") : id = "." :=
  eq_of_sanitizeID_dots (by decide) (by decide) h

theorem sanitizeID_eq_dotdot {id : String} (h : sanitizeID id = "..") : id = ".." :=
  eq_of_sanitizeID_dots (by decide) (by decide) h

theorem sanitizeID_ne_empty (id : String) : sanitizeID id ≠ "" := by
  intro h
  by_cases hid : id = ""
  · subst hid
    exact absurd h (by decide)
  · have hlist : (id.toList.map sanitizeRune).take maxSlug = [] := by
      rw [← sanitizeID_toList hid, h]
      rfl
    rcases List.take_eq_nil_iff.mp hlist with h0 | hnil
    · exact absurd h0 (by decide)
    · have : id.toList = [] := List.map_eq_nil_iff.mp hnil
      exact hid (by simpa using this)

/-- Every id but `.` and `..` has a plain slug. -/
theorem sanitizeID_plain {id : String} (hdot : id ≠ ".") (hdd : id ≠ "..") :
    Plain (sanitizeID id) :=
  ⟨sanitizeID_ne_empty id, fun h => hdot (sanitizeID_eq_dot h),
    fun h => hdd (sanitizeID_eq_dotdot h)⟩

/-! ## The stores of a hub profile -/

/-- The four per-project stores (`dataAppStores`). -/
inductive App where
  | chat | tasks | production | whiteboards
  deriving DecidableEq, Repr

/-- A store's directory name inside the hub profile. -/
def App.name : App → String
  | .chat => "chat"
  | .tasks => "tasks"
  | .production => "production"
  | .whiteboards => "whiteboards"

/-- What a store holds in memory for one project; the chat store's is its open append
handles, by channel. -/
abbrev OpenLogs := List String

/-- One store: its directory and the projects it has loaded. -/
structure Store where
  dir : Path
  projects : List (String × OpenLogs)
  /-- live rooms by project and board; only the whiteboards store has any -/
  rooms : List (String × String)

/-- `Store.projectDir`. -/
def Store.projectDir (s : Store) (projectID : String) : Path :=
  join s.dir (sanitizeID projectID)

/-- `Rooms.DropProject`: the project's live rooms go without being written. -/
def Store.dropRooms (s : Store) (projectID : String) : Store :=
  { s with rooms := s.rooms.filter fun key => key.1 ≠ projectID }

/-- Evict the project's in-memory state (and, in the chat store, close its handles). -/
def Store.evict (s : Store) (projectID : String) : Store :=
  { s with projects := s.projects.filter fun entry => entry.1 ≠ projectID }

/-- `DeleteProject` as chat, tasks and production have it: evict, then remove the
project directory. `stuck` is what the operating system refuses to remove. -/
def deleteProject (s : Store) (disk : Disk) (stuck : Path → Bool) (projectID : String) :
    Store × Disk :=
  (s.evict projectID, disk.removeAll stuck (s.projectDir projectID))

/-- `DeleteProject` of each store. The whiteboards store first drops the project's live
rooms, or an eviction flush would write documents back under the removed directory. -/
def App.deleteProject (app : App) (s : Store) (disk : Disk) (stuck : Path → Bool)
    (projectID : String) : Store × Disk :=
  match app with
  | .whiteboards => Storage.deleteProject (s.dropRooms projectID) disk stuck projectID
  | _ => Storage.deleteProject s disk stuck projectID

/-- A hub profile: its root, and a store for each app at `filepath.Join(root, name)`. -/
structure Profile where
  root : Path
  rootClean : IsClean root
  store : App → Store
  storeDir : ∀ app, (store app).dir = join root app.name

theorem App.name_plain (app : App) : Plain app.name := by
  cases app <;> decide

theorem App.name_no_slash (app : App) : '/' ∉ app.name.toList := by
  cases app <;> decide

theorem App.name_injective {a b : App} (h : a.name = b.name) : a = b := by
  revert h
  cases a <;> cases b <;> decide

theorem Profile.dir_eq (p : Profile) (app : App) :
    (p.store app).dir = p.root ++ [app.name] := by
  rw [p.storeDir, join_plain p.rootClean app.name_no_slash app.name_plain]

theorem Profile.dir_isClean (p : Profile) (app : App) : IsClean (p.store app).dir := by
  rw [p.storeDir]
  exact join_isClean p.rootClean app.name_no_slash app.name_plain

/-- Every store removes exactly `projectDir projectID`. -/
theorem App.deleteProject_disk (app : App) (s : Store) (disk : Disk)
    (stuck : Path → Bool) (projectID : String) :
    (app.deleteProject s disk stuck projectID).2 =
      disk.removeAll stuck (s.projectDir projectID) := by
  cases app <;> rfl

/-- The derived directory is the slug's child of the store directory, for every id
that is not `.` or `..`. -/
theorem projectDir_child (p : Profile) (app : App) {id : String} (hdot : id ≠ ".")
    (hdd : id ≠ "..") :
    (p.store app).projectDir id = (p.store app).dir ++ [sanitizeID id] :=
  join_plain (p.dir_isClean app) (sanitizeID_no_slash id) (sanitizeID_plain hdot hdd)

theorem projectDir_dot (p : Profile) (app : App) :
    (p.store app).projectDir "." = (p.store app).dir :=
  join_dot (p.dir_isClean app)

theorem projectDir_dotdot (p : Profile) (app : App) :
    (p.store app).projectDir ".." = p.root := by
  show join (p.store app).dir (sanitizeID "..") = p.root
  rw [show sanitizeID ".." = ".." from by decide, join_dotdot (p.dir_isClean app),
    p.dir_eq, List.dropLast_concat]

/-! ## Containment -/

/-- Project-directory containment for one id: in each store the derived directory is a
strict child of the store's directory, and whatever `DeleteProject` changes on disk lies
in that child, outside every other app's store directory and outside the directory of
every other project of the store (one whose own directory is another strict child). -/
def Contained (p : Profile) (id : String) : Prop :=
  ∀ app, StrictChild (p.store app).dir ((p.store app).projectDir id) ∧
    ∀ (disk : Disk) (stuck : Path → Bool) (q : Path),
      (app.deleteProject (p.store app) disk stuck id).2 q ≠ disk q →
        (p.store app).projectDir id <+: q ∧
        (∀ other, other ≠ app → ¬ (p.store other).dir <+: q) ∧
        ∀ id', StrictChild (p.store app).dir ((p.store app).projectDir id') →
          (p.store app).projectDir id' ≠ (p.store app).projectDir id →
            ¬ (p.store app).projectDir id' <+: q

/-- A path that is its own child does not exist. -/
theorem not_strictChild_self (dir : Path) : ¬ StrictChild dir dir := by
  rintro ⟨comp, h⟩
  have := congrArg List.length h
  simp at this

theorem not_strictChild_parent (dir : Path) (comp : String) :
    ¬ StrictChild (dir ++ [comp]) dir := by
  rintro ⟨c, h⟩
  have := congrArg List.length h
  simp at this

theorem not_contained_of_dot (p : Profile) : ¬ Contained p "." := by
  intro h
  have hchild := (h .chat).1
  rw [projectDir_dot] at hchild
  exact not_strictChild_self _ hchild

theorem not_contained_of_dotdot (p : Profile) : ¬ Contained p ".." := by
  intro h
  have hchild := (h .chat).1
  rw [projectDir_dotdot, p.dir_eq] at hchild
  exact not_strictChild_parent _ _ hchild

/-- A profile at `/srv/hubs/h` whose stores have loaded nothing. -/
def sampleProfile : Profile where
  root := ["srv", "hubs", "h"]
  rootClean := by decide
  store app := { dir := ["srv", "hubs", "h", app.name], projects := [], rooms := [] }
  storeDir app := by cases app <;> decide

end FusionLocalServer.Storage
