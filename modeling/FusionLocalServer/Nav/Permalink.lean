import FusionLocalServer.DocRef.Tokens
import FusionLocalServer.Lib.UriComponent
import FusionLocalServer.Nav.State

/-!
# Permalinks

The navigation state as the search string of a URL, and back (`state/navUrl.ts`). Ids and the names
that go with them are percent-encoded and joined by tildes, and a tilde is not encoded: a name with
one is read as two parts.

- `dec_enc` is what joining and splitting do to any parts: each is split at its own tildes.
- `permalink_iff` is when a link gives back the state it was made of.
-/

namespace FusionLocalServer.Nav

open Lib RefTokens

/-! ## The parts of a value -/

def enc (parts : List String) : List Char :=
  ['~'].intercalate (parts.map fun p => UriComponent.encode p.toList)

def dec (s : List Char) : List String :=
  (s.splitOn '~').map fun p => String.ofList ((UriComponent.decode p).getD p)

/-- The value, when it is there and not empty. -/
def truthy (value : Option String) : Option String := value.filter (· ≠ "")

/-! ## The search string -/

abbrev Params := List (String × List Char)

/-- `p.set`: the first pair of the name has the value, and there is no other. -/
def setParam (p : Params) (name : String) (value : List Char) : Params :=
  match p.findIdx? (·.1 = name) with
  | some i => p.take i ++ (name, value) :: (p.drop (i + 1)).filter (·.1 ≠ name)
  | none => p ++ [(name, value)]

/-- `if (value) p.set(name, value)`. -/
def setSome (name : String) (value : Option (List Char)) (p : Params) : Params :=
  value.elim p (setParam p name)

def AppKind.text : AppKind → String
  | .browser => "browser"
  | .tasks => "tasks"
  | .production => "production"

/-- The panel of a project is shown, with its tabs. -/
def NavState.atProjectRoot (s : NavState) : Bool :=
  s.project.isSome && s.selected.isNone && s.folderStack.isEmpty

def hubParam (s : NavState) : Option (List Char) :=
  (truthy s.hubId).map fun hubId => enc [hubId, s.hubName.getD ""]

def projParam (s : NavState) : Option (List Char) :=
  s.project.map fun project => enc [project.id, project.name]

def folderParams (s : NavState) : Params :=
  s.folderStack.map fun f => ("f", enc [f.id, f.name])

def selParam (s : NavState) : Option (List Char) :=
  s.selected.map fun selected => enc [selected.id, selected.name, selected.kind]

def dtabParam (s : NavState) : Option String :=
  if s.selected.isSome then truthy s.selectedTab else none

def ptabParam (s : NavState) : Option String :=
  if s.atProjectRoot then truthy s.projectTab else none

def boardParam (s : NavState) : Option String :=
  if ptabParam s = some "whiteboards" then truthy s.boardId else none

def chanParam (s : NavState) : Option String :=
  if ptabParam s = some "chat" then truthy s.channelId else none

def navParams (s : NavState) : Params :=
  if s.app ≠ .browser then
    -- of a screen across projects only the hub is kept
    setSome "hub" (hubParam s) (setParam [] "app" s.app.text.toList)
  else
    let p := setSome "proj" (projParam s) (setSome "hub" (hubParam s) [])
    let p := p ++ folderParams s
    let p := setSome "sel" (selParam s) p
    let p := setSome "dtab" ((dtabParam s).map (·.toList)) p
    let p := setSome "ptab" ((ptabParam s).map (·.toList)) p
    let p := setSome "board" ((boardParam s).map (·.toList)) p
    setSome "chan" ((chanParam s).map (·.toList)) p

def navToSearch (s : NavState) : List Char := toQuery (navParams s)

/-! ## Reading it -/

/-- `p.get(name)`. -/
def getParam (p : List (List Char × List Char)) (name : String) : Option (List Char) :=
  p.lookup name.toList

/-- `p.getAll(name)`. -/
def getParams (p : List (List Char × List Char)) (name : String) : List (List Char) :=
  (p.filter (·.1 = name.toList)).map (·.2)

/-- `(shown && p.get(name)) || null`. -/
def getShown (shown : Bool) (p : List (List Char × List Char)) (name : String) : Option String :=
  if shown then truthy ((getParam p name).map String.ofList) else none

/-- The parts of a raw value, none when it is missing or empty. -/
def parts (raw : Option (List Char)) : List String :=
  match raw with
  | some (c :: cs) => dec (c :: cs)
  | _ => []

/-- A project or a folder with the name that goes with it. -/
def container (kind : String) (parts : List String) : Option Item :=
  (truthy parts[0]?).map fun id => { id, name := parts[1]?.getD "", kind, isContainer := true }

def document (parts : List String) : Option Item :=
  (truthy parts[0]?).map fun id =>
    { id, name := parts[1]?.getD "", kind := parts[2]?.getD "unknown", isContainer := false }

def searchToNav (search : List Char) : NavState :=
  let p := searchParams (if search.head? = some '?' then search.drop 1 else search)
  let hub := parts (getParam p "hub")
  let s : NavState := {
    app := if getParam p "app" = some "tasks".toList then .tasks
      else if getParam p "app" = some "production".toList then .production else .browser
    hubId := truthy hub[0]?
    hubName := truthy hub[1]?
    project := container "project" (parts (getParam p "proj"))
    folderStack := (getParams p "f").filterMap fun raw => container "folder" (dec raw)
    selected := document (parts (getParam p "sel")) }
  let projectTab := getShown s.atProjectRoot p "ptab"
  { s with
    selectedTab := getShown s.selected.isSome p "dtab"
    projectTab
    boardId := getShown (projectTab = some "whiteboards") p "board"
    channelId := getShown (projectTab = some "chat") p "chan" }

/-! ## Joining and splitting -/

/-- Each part is split at its own tildes. -/
theorem dec_enc {parts : List String} (hne : parts ≠ []) :
    dec (enc parts) = parts.flatMap fun p => (p.toList.splitOn '~').map String.ofList := by
  rw [dec, enc, UriComponent.splitOn_intercalate_eq _ (by simpa using hne), List.flatMap_map,
    List.map_flatMap]
  refine List.flatMap_congr fun p _ => ?_
  rw [UriComponent.splitOn_encode (by decide) (by decide), List.map_map]
  refine List.map_congr_left fun part _ => ?_
  simp only [Function.comp, UriComponent.decode_encode, Option.getD_some]

/-- What is read back of a name. -/
def shown (name : String) : String := String.ofList (name.toList.takeWhile (· ≠ '~'))

theorem shown_eq_iff {name : String} : shown name = name ↔ '~' ∉ name.toList := by
  rw [← UriComponent.takeWhile_ne_eq_iff, shown]
  constructor
  · intro h
    simpa using congrArg String.toList h
  · intro h
    rw [h, String.ofList_toList]

theorem splitName (name : String) : ∃ rest,
    (name.toList.splitOn '~').map String.ofList = shown name :: rest := by
  have hhead := UriComponent.head?_splitOn (a := '~') name.toList
  cases hsplit : name.toList.splitOn '~' with
  | nil => exact absurd hsplit (List.splitOn_ne_nil _ _)
  | cons first rest =>
    rw [hsplit, List.head?_cons, Option.some.injEq] at hhead
    exact ⟨rest.map String.ofList, by rw [List.map_cons, hhead, shown]⟩

theorem splitWhole {name : String} (h : '~' ∉ name.toList) :
    (name.toList.splitOn '~').map String.ofList = [name] := by
  simp [List.splitOn_eq_singleton h]

theorem dec_enc_pair {id : String} (hid : '~' ∉ id.toList) (name : String) :
    ∃ rest, dec (enc [id, name]) = id :: shown name :: rest := by
  obtain ⟨rest, hrest⟩ := splitName name
  exact ⟨rest, by simp [dec_enc, splitWhole hid, hrest]⟩

theorem dec_enc_document {id : String} (hid : '~' ∉ id.toList) (name kind : String) :
    ∃ rest, dec (enc [id, name, kind]) = id :: shown name :: rest ∧
      ('~' ∉ name.toList → rest[0]? = some (shown kind)) := by
  obtain ⟨more, hmore⟩ := splitName name
  obtain ⟨rest, hrest⟩ := splitName kind
  refine ⟨more ++ shown kind :: rest, by simp [dec_enc, splitWhole hid, hmore, hrest], fun hname => ?_⟩
  rw [splitWhole hname] at hmore
  obtain ⟨-, rfl⟩ := List.cons_eq_cons.mp hmore
  rfl

theorem parts_enc {id : String} {rest : List String} (hne : rest ≠ []) :
    parts (some (enc (id :: rest))) = dec (enc (id :: rest)) := by
  have hcons : ∃ c cs, enc (id :: rest) = c :: cs := by
    refine List.exists_cons_of_ne_nil fun h => ?_
    cases rest with
    | nil => exact hne rfl
    | cons next rest => simp [enc, List.intercalate_cons_cons] at h
  obtain ⟨c, cs, h⟩ := hcons
  rw [h]
  rfl

/-! ## What is found in a search string -/

/-- The pair of a value that is there. -/
def one (name : String) (value : Option (List Char)) : Params := (value.map fun v => (name, v)).toList

theorem setParam_absent {p : Params} {name : String} (h : ∀ q ∈ p, q.1 ≠ name) (value : List Char) :
    setParam p name value = p ++ [(name, value)] := by
  have hnone : p.findIdx? (fun q => decide (q.1 = name)) = none :=
    List.findIdx?_eq_none_iff.mpr fun q hq => decide_eq_false (h q hq)
  rw [setParam, hnone]

theorem setSome_absent {p : Params} {name : String} (h : ∀ q ∈ p, q.1 ≠ name)
    (value : Option (List Char)) : setSome name value p = p ++ one name value := by
  cases value with
  | none => exact (List.append_nil p).symm
  | some value => exact setParam_absent h value

theorem one_ne {name k : String} (h : name ≠ k) (value : Option (List Char)) :
    ∀ q ∈ one name value, q.1 ≠ k := by
  intro q hq
  cases value with
  | none => cases hq
  | some value =>
    rw [List.mem_singleton.mp hq]
    exact h

theorem folderParams_ne {k : String} (h : "f" ≠ k) (s : NavState) : ∀ q ∈ folderParams s, q.1 ≠ k := by
  intro q hq
  obtain ⟨f, -, rfl⟩ := List.mem_map.mp hq
  exact h

theorem setSome_ne {p : Params} {name k : String} (h : name ≠ k) {value : Option (List Char)}
    (hp : ∀ q ∈ p, q.1 ≠ k) : ∀ q ∈ setSome name value p, q.1 ≠ k := by
  cases value with
  | none => exact hp
  | some value =>
    show ∀ q ∈ setParam p name value, q.1 ≠ k
    unfold setParam
    split
    · refine List.forall_mem_append.mpr ⟨fun q hq => hp q (List.mem_of_mem_take hq), ?_⟩
      exact List.forall_mem_cons.mpr
        ⟨h, fun q hq => hp q (List.mem_of_mem_drop (List.mem_filter.mp hq).1)⟩
    · exact List.forall_mem_append.mpr ⟨hp, List.forall_mem_singleton.mpr h⟩

/-- No name is set twice. -/
theorem navParams_browser {s : NavState} (h : s.app = .browser) : navParams s =
    one "hub" (hubParam s) ++ one "proj" (projParam s) ++ folderParams s ++
      one "sel" (selParam s) ++ one "dtab" ((dtabParam s).map (·.toList)) ++
      one "ptab" ((ptabParam s).map (·.toList)) ++ one "board" ((boardParam s).map (·.toList)) ++
      one "chan" ((chanParam s).map (·.toList)) := by
  rw [navParams, if_neg (not_not.mpr h)]
  dsimp only
  rw [setSome_absent (p := []) (fun _ hq => (nomatch hq)), List.nil_append]
  rw [setSome_absent, setSome_absent, setSome_absent, setSome_absent, setSome_absent,
    setSome_absent]
  all_goals repeat' first
    | exact one_ne (by decide) _
    | exact folderParams_ne (by decide) _
    | refine setSome_ne (by decide) ?_
    | refine List.forall_mem_append.mpr ⟨?_, ?_⟩

theorem navParams_other {s : NavState} (h : s.app ≠ .browser) :
    navParams s = ("app", s.app.text.toList) :: one "hub" (hubParam s) := by
  rw [navParams, if_pos h, setParam_absent (p := []) (fun _ hq => (nomatch hq)), List.nil_append,
    setSome_absent]
  · rfl
  · intro q hq
    rw [List.mem_singleton.mp hq]
    exact (by decide : "app" ≠ "hub")

theorem lookup_one {name : String} {value : Option (List Char)} (k : String) :
    (one name value).lookup k = if k = name then value else none := by
  cases value with
  | none => simp [one]
  | some value =>
    by_cases h : k = name
    · simp [one, h]
    · have hb : (k == name) = false := beq_false_of_ne h
      simp [one, List.lookup_cons, hb, h]

theorem lookup_folderParams {s : NavState} {k : String} (h : "f" ≠ k) :
    (folderParams s).lookup k = none := by
  rw [List.lookup_eq_none_iff]
  intro q hq
  exact bne_iff_ne.mpr (folderParams_ne h s q hq).symm

theorem getParam_map (ps : Params) (name : String) :
    getParam (ps.map fun p => (p.1.toList, p.2)) name = ps.lookup name := by
  rw [getParam]
  induction ps with
  | nil => rfl
  | cons p ps ih =>
    have hkey : (name.toList == p.1.toList) = (name == p.1) := by
      by_cases h : name = p.1
      · rw [h, beq_self_eq_true, beq_self_eq_true]
      · rw [beq_false_of_ne h, beq_false_of_ne fun heq => h (String.toList_injective heq)]
    rw [List.map_cons, List.lookup_cons, List.lookup_cons, ih, hkey]

theorem getParams_map (ps : Params) (name : String) :
    getParams (ps.map fun p => (p.1.toList, p.2)) name = (ps.filter (·.1 = name)).map (·.2) := by
  induction ps with
  | nil => rfl
  | cons p ps ih =>
    rw [getParams] at ih ⊢
    by_cases h : p.1 = name <;> simp_all [String.toList_inj]

theorem filter_absent {p : Params} {k : String} (h : ∀ q ∈ p, q.1 ≠ k) : p.filter (·.1 = k) = [] :=
  List.filter_eq_nil_iff.mpr fun q hq => by simpa using h q hq

theorem filter_folderParams (s : NavState) : (folderParams s).filter (·.1 = "f") = folderParams s := by
  refine List.filter_eq_self.mpr fun q hq => ?_
  obtain ⟨f, -, rfl⟩ := List.mem_map.mp hq
  rfl

/-! ## Reading a link back -/

/-- The ids have no tilde, and nothing that is there is empty. -/
structure Proper (s : NavState) : Prop where
  hub : ∀ id ∈ s.hubId, id ≠ "" ∧ '~' ∉ id.toList
  project : ∀ p ∈ s.project, p.id ≠ "" ∧ '~' ∉ p.id.toList
  folders : ∀ f ∈ s.folderStack, f.id ≠ "" ∧ '~' ∉ f.id.toList
  selected : ∀ i ∈ s.selected, i.id ≠ "" ∧ '~' ∉ i.id.toList ∧ i.kind ≠ ""
  selectedTab : s.selectedTab ≠ some ""
  projectTab : s.projectTab ≠ some ""
  boardId : s.boardId ≠ some ""
  channelId : s.channelId ≠ some ""

variable {s : NavState}

theorem truthy_eq_self {value : Option String} (h : value ≠ some "") : truthy value = value := by
  cases value with
  | none => rfl
  | some v =>
    have hv : v ≠ "" := fun heq => h (heq ▸ rfl)
    simp [truthy, hv]

theorem truthy_some {v : String} (h : v ≠ "") : truthy (some v) = some v :=
  truthy_eq_self fun heq => h (Option.some.inj heq)

theorem truthy_getD (v : String) : (truthy (some v)).getD "" = v := by
  by_cases h : v = ""
  · rw [h]
    rfl
  · rw [truthy_some h, Option.getD_some]

theorem hub_back (h : Proper s) : truthy (parts (hubParam s))[0]? = s.hubId ∧
    (truthy (parts (hubParam s))[1]?).getD "" =
      if s.hubId.isSome then shown (s.hubName.getD "") else "" := by
  cases hhub : s.hubId with
  | none => simp [hubParam, truthy, hhub, parts]
  | some id =>
    obtain ⟨hne, htilde⟩ := h.hub id hhub
    obtain ⟨rest, hrest⟩ := dec_enc_pair htilde (s.hubName.getD "")
    have hparam : hubParam s = some (enc [id, s.hubName.getD ""]) := by
      simp [hubParam, hhub, truthy_some hne]
    rw [hparam, parts_enc (List.cons_ne_nil _ _), hrest]
    exact ⟨truthy_some hne, truthy_getD _⟩

theorem container_back (kind : String) {id name : String} (hne : id ≠ "") (htilde : '~' ∉ id.toList) :
    container kind (dec (enc [id, name])) =
      some { id, name := shown name, kind, isContainer := true } := by
  obtain ⟨rest, hrest⟩ := dec_enc_pair htilde name
  simp [container, hrest, truthy_some hne]

theorem project_back (h : Proper s) : container "project" (parts (projParam s)) =
    s.project.map fun p => { id := p.id, name := shown p.name, kind := "project", isContainer := true } := by
  cases hproject : s.project with
  | none => simp [projParam, hproject, parts, container, truthy]
  | some p =>
    obtain ⟨hne, htilde⟩ := h.project p hproject
    rw [projParam, hproject, Option.map_some, parts_enc (List.cons_ne_nil _ _),
      container_back _ hne htilde]
    rfl

theorem folders_back (h : Proper s) :
    ((folderParams s).map (·.2)).filterMap (fun raw => container "folder" (dec raw)) =
      s.folderStack.map fun f =>
        { id := f.id, name := shown f.name, kind := "folder", isContainer := true } := by
  rw [folderParams, List.map_map, List.filterMap_map, ← List.filterMap_eq_map]
  refine List.filterMap_congr fun f hf => ?_
  exact container_back "folder" (h.folders f hf).1 (h.folders f hf).2

/-- The kind is what comes after the name, when the name is one part. -/
theorem document_back (h : Proper s) : ∃ kind : Item → String,
    document (parts (selParam s)) = (s.selected.map fun i =>
      { id := i.id, name := shown i.name, kind := kind i, isContainer := false }) ∧
    ∀ i ∈ s.selected, '~' ∉ i.name.toList → kind i = shown i.kind := by
  cases hselected : s.selected with
  | none =>
    refine ⟨fun _ => "", ?_, fun i hi => (nomatch hi)⟩
    simp [selParam, hselected, parts, document, truthy]
  | some i =>
    obtain ⟨hne, htilde, -⟩ := h.selected i hselected
    obtain ⟨rest, hrest, hkind⟩ := dec_enc_document htilde i.name i.kind
    refine ⟨fun _ => rest[0]?.getD "unknown", ?_, ?_⟩
    · rw [selParam, hselected, Option.map_some, parts_enc (List.cons_ne_nil _ _), hrest, document]
      simp [truthy_some hne]
    · intro j hj hname
      cases hj
      show rest[0]?.getD "unknown" = _
      rw [hkind hname, Option.getD_some]

theorem truthy_ne (value : Option String) : truthy value ≠ some "" := by
  intro h
  simpa using (Option.filter_eq_some_iff.mp h).2

theorem getShown_back {gate : Bool} {value : Option String} {p : List (List Char × List Char)}
    {name : String} (hvalue : value ≠ some "") (hgate : gate = false → value = none)
    (hp : getParam p name = value.map (·.toList)) : getShown gate p name = value := by
  cases gate with
  | false =>
    rw [hgate rfl]
    rfl
  | true =>
    rw [getShown, if_pos rfl, hp, Option.map_map]
    cases value with
    | none => rfl
    | some v =>
      rw [Option.map_some, Function.comp, String.ofList_toList]
      exact truthy_eq_self hvalue

/-- What is read back of a link of the browser. -/
structure ReadBack (s back : NavState) : Prop where
  app : back.app = .browser
  hubId : back.hubId = s.hubId
  hubName : back.hubName.getD "" = if s.hubId.isSome then shown (s.hubName.getD "") else ""
  project : back.project = s.project.map fun p =>
    { id := p.id, name := shown p.name, kind := "project", isContainer := true }
  folders : back.folderStack = s.folderStack.map fun f =>
    { id := f.id, name := shown f.name, kind := "folder", isContainer := true }
  selected : ∃ kind : Item → String, back.selected = (s.selected.map fun i =>
      { id := i.id, name := shown i.name, kind := kind i, isContainer := false }) ∧
    ∀ i ∈ s.selected, '~' ∉ i.name.toList → kind i = shown i.kind
  selectedTab : back.selectedTab = if s.selected.isSome then s.selectedTab else none
  projectTab : back.projectTab = if s.atProjectRoot then s.projectTab else none
  boardId : back.boardId =
    if s.atProjectRoot ∧ s.projectTab = some "whiteboards" then s.boardId else none
  channelId : back.channelId =
    if s.atProjectRoot ∧ s.projectTab = some "chat" then s.channelId else none

theorem searchParams_navToSearch (s : NavState) :
    searchParams (if (navToSearch s).head? = some '?' then (navToSearch s).drop 1 else navToSearch s) =
      (navParams s).map fun p => (p.1.toList, p.2) := by
  have hmark : (navToSearch s).head? ≠ some '?' := fun h =>
    (mem_toQuery (List.mem_of_head? h)).2 rfl
  rw [if_neg hmark, navToSearch, searchParams_toQuery]

/-- The values that a search string of the browser has. -/
theorem lookup_browser (happ : s.app = .browser) :
    (navParams s).lookup "app" = none ∧ (navParams s).lookup "hub" = hubParam s ∧
    (navParams s).lookup "proj" = projParam s ∧ (navParams s).lookup "sel" = selParam s ∧
    (navParams s).lookup "dtab" = (dtabParam s).map (·.toList) ∧
    (navParams s).lookup "ptab" = (ptabParam s).map (·.toList) ∧
    (navParams s).lookup "board" = (boardParam s).map (·.toList) ∧
    (navParams s).lookup "chan" = (chanParam s).map (·.toList) := by
  rw [navParams_browser happ]
  simp [List.lookup_append, lookup_one, lookup_folderParams]

theorem filter_browser (happ : s.app = .browser) :
    (navParams s).filter (·.1 = "f") = folderParams s := by
  rw [navParams_browser happ]
  simp only [List.filter_append, filter_folderParams]
  simp [filter_absent (one_ne _ _)]

theorem gated_ne (gate : Prop) [Decidable gate] (value : Option String) :
    (if gate then truthy value else none) ≠ some "" := by
  split
  · exact truthy_ne value
  · simp

theorem readBack_browser (h : Proper s) (happ : s.app = .browser) :
    ReadBack s (searchToNav (navToSearch s)) := by
  obtain ⟨hnone, hhub, hproj, hsel, hdtab, hptab, hboard, hchan⟩ := lookup_browser happ
  have hget := getParam_map (navParams s)
  have hfolders := getParams_map (navParams s) "f"
  have hback := searchParams_navToSearch s
  obtain ⟨kind, hdoc, hkind⟩ := document_back h
  rw [filter_browser happ] at hfolders
  unfold searchToNav
  rw [hback]
  generalize (navParams s).map (fun p => (p.1.toList, p.2)) = p at *
  simp only [← hget] at hnone hhub hproj hsel hdtab hptab hboard hchan
  simp only [hnone, hhub, hproj, hsel, hfolders, project_back h, folders_back h, hdoc,
    NavState.atProjectRoot, Option.isSome_map, Option.isNone_map, List.isEmpty_map]
  -- the gates are those of the state
  have hroot : (s.project.isSome && s.selected.isNone && s.folderStack.isEmpty) = s.atProjectRoot :=
    rfl
  have hdetails : getShown s.selected.isSome p "dtab" = dtabParam s :=
    getShown_back (gated_ne _ _) (fun hgate => by simp [dtabParam, hgate]) hdtab
  have htab : getShown s.atProjectRoot p "ptab" = ptabParam s :=
    getShown_back (gated_ne _ _) (fun hgate => by simp [ptabParam, hgate]) hptab
  have hboardId : getShown (ptabParam s = some "whiteboards") p "board" = boardParam s :=
    getShown_back (gated_ne _ _) (fun hgate => by simp [boardParam, of_decide_eq_false hgate]) hboard
  have hchannelId : getShown (ptabParam s = some "chat") p "chan" = chanParam s :=
    getShown_back (gated_ne _ _) (fun hgate => by simp [chanParam, of_decide_eq_false hgate]) hchan
  rw [hroot, hdetails, htab, hboardId, hchannelId]
  have hptabs : ptabParam s = if s.atProjectRoot then s.projectTab else none := by
    rw [ptabParam, truthy_eq_self h.projectTab]
  have hshown : ∀ tab, ptabParam s = some tab ↔ s.atProjectRoot ∧ s.projectTab = some tab := by
    simp [hptabs]
  refine {
    app := rfl
    hubId := (hub_back h).1
    hubName := (hub_back h).2
    project := rfl
    folders := rfl
    selected := ⟨kind, rfl, hkind⟩
    selectedTab := ?_
    projectTab := hptabs
    boardId := ?_
    channelId := ?_ }
  · show dtabParam s = _
    rw [dtabParam, truthy_eq_self h.selectedTab]
  · show boardParam s = _
    simp only [boardParam, truthy_eq_self h.boardId, hshown]
  · show chanParam s = _
    simp only [chanParam, truthy_eq_self h.channelId, hshown]

/-! ## When a link gives the state back -/

/-- What names a hub, a project, a folder or a document. -/
def Item.label (i : Item) : String × String := (i.id, i.name)

/-- Where the browser is, and what it shows there. -/
structure SamePlace (s back : NavState) : Prop where
  project : back.project.map Item.label = s.project.map Item.label
  folders : back.folderStack.map Item.label = s.folderStack.map Item.label
  selected : back.selected.map (fun i => (i.label, i.kind)) =
    s.selected.map fun i => (i.label, i.kind)
  selectedTab : s.selected.isSome → back.selectedTab = s.selectedTab
  projectTab : back.projectTab = if s.atProjectRoot then s.projectTab else none
  boardId : back.boardId =
    if s.atProjectRoot ∧ s.projectTab = some "whiteboards" then s.boardId else none
  channelId : back.channelId =
    if s.atProjectRoot ∧ s.projectTab = some "chat" then s.channelId else none

/-- A link has given back the state that it was made of. -/
structure GivesBack (s back : NavState) : Prop where
  app : back.app = s.app
  hubId : back.hubId = s.hubId
  hubName : back.hubName.getD "" = s.hubName.getD ""
  place : s.app = .browser → SamePlace s back

/-- No name and no kind that is written has a tilde, and there is no hub's name without its id. -/
structure NoTilde (s : NavState) : Prop where
  hub : if s.hubId.isSome then '~' ∉ (s.hubName.getD "").toList else s.hubName.getD "" = ""
  project : s.app = .browser → ∀ p ∈ s.project, '~' ∉ p.name.toList
  folders : s.app = .browser → ∀ f ∈ s.folderStack, '~' ∉ f.name.toList
  selected : s.app = .browser → ∀ i ∈ s.selected, '~' ∉ i.name.toList ∧ '~' ∉ i.kind.toList

theorem hubName_iff : (if s.hubId.isSome then shown (s.hubName.getD "") else "") = s.hubName.getD "" ↔
    if s.hubId.isSome then '~' ∉ (s.hubName.getD "").toList else s.hubName.getD "" = "" := by
  split
  · exact shown_eq_iff
  · exact eq_comm

/-- A link of a screen across projects has the screen and the hub. -/
theorem readBack_other (h : Proper s) (happ : s.app ≠ .browser) :
    (searchToNav (navToSearch s)).app = s.app ∧ (searchToNav (navToSearch s)).hubId = s.hubId ∧
      (searchToNav (navToSearch s)).hubName.getD "" =
        if s.hubId.isSome then shown (s.hubName.getD "") else "" := by
  have hget := getParam_map (navParams s)
  have hback := searchParams_navToSearch s
  have hhub : (navParams s).lookup "hub" = hubParam s := by
    rw [navParams_other happ]
    simp [List.lookup_cons, lookup_one]
  have hname : (navParams s).lookup "app" = some s.app.text.toList := by
    rw [navParams_other happ]
    simp
  unfold searchToNav
  rw [hback]
  simp only [hget, hhub, hname]
  refine ⟨?_, (hub_back h).1, (hub_back h).2⟩
  cases hkind : s.app with
  | browser => exact absurd hkind happ
  | tasks => rfl
  | production => rfl

theorem map_label_iff (items : List Item) (kind : String) :
    (items.map fun f => ({ id := f.id, name := shown f.name, kind, isContainer := true } : Item)).map
        Item.label = items.map Item.label ↔ ∀ f ∈ items, '~' ∉ f.name.toList := by
  rw [List.map_map, List.map_inj_left]
  refine forall₂_congr fun f _ => ?_
  rw [← shown_eq_iff]
  simp [Item.label]

/-- The same for what there is at most one of. -/
theorem option_label_iff (item : Option Item) (kind : String) :
    (item.map fun p => ({ id := p.id, name := shown p.name, kind, isContainer := true } : Item)).map
        Item.label = item.map Item.label ↔ ∀ p ∈ item, '~' ∉ p.name.toList := by
  cases item with
  | none => simp
  | some p => simp [Item.label, shown_eq_iff]

theorem document_label_iff {item : Option Item} {kind : Item → String}
    (hkind : ∀ i ∈ item, '~' ∉ i.name.toList → kind i = shown i.kind) :
    (item.map fun i => ({ id := i.id, name := shown i.name, kind := kind i, isContainer := false } :
        Item)).map (fun i => (i.label, i.kind)) = item.map (fun i => (i.label, i.kind)) ↔
      ∀ i ∈ item, '~' ∉ i.name.toList ∧ '~' ∉ i.kind.toList := by
  cases item with
  | none => simp
  | some i =>
    have hback : ('~' ∉ i.name.toList ∧ kind i = i.kind) ↔
        ('~' ∉ i.name.toList ∧ '~' ∉ i.kind.toList) :=
      and_congr_right fun hname => by rw [hkind i rfl hname, shown_eq_iff]
    simp [Item.label, shown_eq_iff, hback]

/-- **A permalink gives back its state exactly when no name in it has a tilde.** -/
theorem permalink_iff (h : Proper s) :
    GivesBack s (searchToNav (navToSearch s)) ↔ NoTilde s := by
  by_cases happ : s.app = .browser
  · have hr := readBack_browser h happ
    obtain ⟨kind, hselected, hkind⟩ := hr.selected
    have hproject := option_label_iff s.project "project"
    have hfolders := map_label_iff s.folderStack "folder"
    have hdocument := document_label_iff hkind
    rw [← hr.project] at hproject
    rw [← hr.folders] at hfolders
    rw [← hselected] at hdocument
    constructor
    · intro hback
      have hplace := hback.place happ
      exact {
        hub := hubName_iff.mp (hr.hubName.symm.trans hback.hubName)
        project := fun _ => hproject.mp hplace.project
        folders := fun _ => hfolders.mp hplace.folders
        selected := fun _ => hdocument.mp hplace.selected }
    · intro hno
      refine ⟨hr.app.trans happ.symm, hr.hubId, hr.hubName.trans (hubName_iff.mpr hno.hub), fun _ => ?_⟩
      exact {
        project := hproject.mpr (hno.project happ)
        folders := hfolders.mpr (hno.folders happ)
        selected := hdocument.mpr (hno.selected happ)
        selectedTab := fun hsome => by rw [hr.selectedTab, if_pos hsome]
        projectTab := hr.projectTab
        boardId := hr.boardId
        channelId := hr.channelId }
  · obtain ⟨hkeep, hhub, hname⟩ := readBack_other h happ
    constructor
    · intro hback
      exact ⟨hubName_iff.mp (hname.symm.trans hback.hubName), fun hbrowser => absurd hbrowser happ,
        fun hbrowser => absurd hbrowser happ, fun hbrowser => absurd hbrowser happ⟩
    · intro hno
      exact ⟨hkeep, hhub, hname.trans (hubName_iff.mpr hno.hub), fun hbrowser => absurd hbrowser happ⟩

/-- A document of a project, with its details. -/
def bracket : NavState where
  hubId := some "a.h1"
  hubName := some "Gears & co"
  project := some { id := "p1", name := "Größe", kind := "project", isContainer := true }
  folderStack := [{ id := "f1", name := "", kind := "folder", isContainer := true }]
  selected := some { id := "urn:x:i1", name := "Bracket", kind := "design", isContainer := false }
  selectedTab := some "history"

theorem permalink_iff_bracket : GivesBack bracket (searchToNav (navToSearch bracket)) := by
  refine (permalink_iff (s := bracket) ?_).mpr ?_
  · constructor <;> simp [bracket]
  · constructor <;> simp [bracket]

/-- A project with a tilde in its name. -/
def gears : NavState where
  hubId := some "h1"
  hubName := some "Hub"
  project := some { id := "p1", name := "Gears~old", kind := "project", isContainer := true }

theorem tilde_cuts_name : Proper gears ∧
    (searchToNav (navToSearch gears)).project.map Item.label = some ("p1", "Gears") ∧
    ¬ GivesBack gears (searchToNav (navToSearch gears)) := by
  have hback : (searchToNav (navToSearch gears)).project.map Item.label = some ("p1", "Gears") := by
    decide +kernel
  refine ⟨by constructor <;> simp [gears], hback, fun h => ?_⟩
  exact absurd (hback.symm.trans (h.place rfl).project) (by decide)

end FusionLocalServer.Nav
