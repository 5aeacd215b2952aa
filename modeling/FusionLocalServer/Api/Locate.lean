import Mathlib.Data.List.Basic

/-!
# Where an item is

`GetItemLocation` of `api/locate.go`: one query nests the folders above an item eight deep, and
where they go on, one query for each further folder, of which there are a hundred at most. The
walk that has come to its last query says nothing of it.

- `path` is the folders above a folder, as far as one likes; both the nested answer and the walk are
  such paths, and one goes on where the other ends (`path_append`).
- `located_iff` is when the location is the whole chain of folders.
-/

namespace FusionLocalServer.Api

/-- A folder above an item. -/
structure FolderRef where
  id : String
  name : String
deriving DecidableEq

structure ItemLocation where
  hubID : String
  projectID : String
  projectAltID : String
  projectName : String
  /-- From the root of the project down to the folder that has the item. -/
  folderPath : List FolderRef
deriving DecidableEq

def locateDepth : Nat := 8

/-- What a query asks for of the folder that a folder is in. -/
inductive Selection where
  | nothing
  | parentFolder (sub : Selection)

def Selection.text : Selection → String
  | .nothing => ""
  | .parentFolder sub => "parentFolder \x7b id name " ++ sub.text ++ " \x7d"

def nestedParentFolder : Nat → Selection
  | 0 => .nothing
  | n + 1 => .parentFolder (nestedParentFolder n)

/-- The nested answer. -/
inductive FolderChain where
  | nothing
  | folder (id name : String) (parentFolder : FolderChain)

/-- What the item is in, as the upstream has it: ids are not empty. -/
structure Upstream where
  hubID : String
  projectID : String
  projectAltID : String
  projectName : String
  itemFolder : Option FolderRef
  /-- The folder that the folder of an id is in. -/
  parent : String → Option FolderRef
  item_named : ∀ f ∈ itemFolder, f.id ≠ ""
  parent_named : ∀ id, ∀ f ∈ parent id, f.id ≠ ""

/-- What the upstream has to say of a query that it does not answer, by the number of the query. -/
abbrev Failures := Nat → Option String

inductive LocateError where
  | locate (e : String)
  | noProject (itemID : String)
  | walk (folderID e : String)

/-- The answer to a selection. -/
def Upstream.select (u : Upstream) : Selection → Option FolderRef → FolderChain
  | .parentFolder sub, some f => .folder f.id f.name (u.select sub (u.parent f.id))
  | _, _ => .nothing

/-- The nested answer, the folder of the item first. -/
def unfoldChain : FolderChain → List FolderRef
  | .nothing => []
  | .folder id name parentFolder =>
    if id = "" then [] else { id, name } :: unfoldChain parentFolder

/-- One query for each further folder, `left` at most. The answer for a folder that is in none has
an empty id. -/
def walkFolders (u : Upstream) (fails : Failures) :
    Nat → Nat → String → Except LocateError (List FolderRef)
  | 0, _, _ => .ok []
  | left + 1, trip, cur =>
    if cur = "" then .ok []
    else match fails trip with
      | some e => .error (.walk cur e)
      | none =>
        let answer := (u.parent cur).getD { id := "", name := "" }
        if answer.id = "" then .ok []
        else (walkFolders u fails left (trip + 1) answer.id).map (answer :: ·)

/-- The folders of the nested answer and, where they go on, those of the walk, turned round. -/
def folderPath (u : Upstream) (fails : Failures) : Except LocateError (List FolderRef) :=
  let ancestry := unfoldChain (u.select (nestedParentFolder locateDepth) u.itemFolder)
  let lastID := (ancestry.getLast?.map (·.id)).getD ""
  let further :=
    if locateDepth ≤ ancestry.length ∧ lastID ≠ "" then walkFolders u fails 100 1 lastID
    else .ok []
  further.map fun rest => (ancestry ++ rest).reverse

def getItemLocation (u : Upstream) (fails : Failures) (itemID : String) :
    Except LocateError ItemLocation :=
  match fails 0 with
  | some e => .error (.locate e)
  | none =>
    if u.projectID = "" then .error (.noProject itemID)
    else (folderPath u fails).map fun folderPath =>
      { hubID := u.hubID, projectID := u.projectID, projectAltID := u.projectAltID
        projectName := u.projectName, folderPath }

/-! ## The folders above a folder -/

namespace Upstream

/-- A folder and those above it, `n` of them at most. -/
def path (u : Upstream) : Nat → Option FolderRef → List FolderRef
  | n + 1, some f => f :: u.path n (u.parent f.id)
  | _, _ => []

/-- The list is a folder and all those above it. -/
def Chain (u : Upstream) : Option FolderRef → List FolderRef → Prop
  | f, [] => f = none
  | f, g :: rest => f = some g ∧ u.Chain (u.parent g.id) rest

/-- The folder that is `n` above a folder. -/
def above (u : Upstream) : Nat → Option FolderRef → Option FolderRef
  | 0, f => f
  | _ + 1, none => none
  | n + 1, some f => u.above n (u.parent f.id)

variable {u : Upstream} {f : Option FolderRef} {chain : List FolderRef}

@[simp] theorem path_none (n : Nat) : u.path n none = [] := by cases n <;> rfl

/-- A folder's chain is what a long enough path is. -/
theorem Chain.path (h : u.Chain f chain) (n : Nat) : u.path n f = chain.take n := by
  induction chain generalizing f n with
  | nil =>
    obtain rfl : f = none := h
    simp
  | cons g rest ih =>
    obtain ⟨rfl, hrest⟩ := h
    cases n with
    | zero => rfl
    | succ n =>
      show g :: u.path n (u.parent g.id) = g :: rest.take n
      rw [ih hrest n]

/-- A path that could have gone on is a chain. -/
theorem chain_of_lt (n : Nat) : ∀ {f : Option FolderRef}, (u.path n f).length < n →
    u.Chain f (u.path n f) := by
  induction n with
  | zero => exact fun h => absurd h (Nat.not_lt_zero _)
  | succ n ih =>
    intro f h
    cases f with
    | none => rfl
    | some g => exact ⟨rfl, ih (Nat.lt_of_succ_lt_succ h)⟩

theorem length_path_le (n : Nat) : ∀ f, (u.path n f).length ≤ n := by
  induction n with
  | zero => exact fun f => Nat.le_refl _
  | succ n ih =>
    intro f
    cases f with
    | none => exact Nat.zero_le _
    | some g => exact Nat.succ_le_succ (ih _)

/-- A path goes on from the folder that is above it. -/
theorem path_append (m n : Nat) : ∀ f, u.path (m + n) f = u.path m f ++ u.path n (u.above m f) := by
  induction m with
  | zero =>
    intro f
    rw [Nat.zero_add]
    rfl
  | succ m ih =>
    intro f
    rw [Nat.succ_add]
    cases f with
    | none => simp [Upstream.path, above]
    | some g =>
      show g :: u.path (m + n) (u.parent g.id) = _
      rw [ih]
      rfl

/-- The folder above a path that ends in one is the folder that this one is in. -/
theorem above_of_getLast (m : Nat) : ∀ {f : Option FolderRef} {last : FolderRef},
    (u.path m f).length = m → (u.path m f).getLast? = some last → u.above m f = u.parent last.id := by
  induction m with
  | zero => exact fun _ h => nomatch h
  | succ m ih =>
    intro f last hlength hlast
    cases f with
    | none => cases hlength
    | some g =>
      have hrest : (u.path m (u.parent g.id)).length = m := Nat.succ.inj hlength
      show u.above m (u.parent g.id) = u.parent last.id
      rw [Upstream.path, List.getLast?_cons] at hlast
      cases hpath : (u.path m (u.parent g.id)).getLast? with
      | none =>
        -- nothing is above the folder in the path
        rw [hpath] at hlast
        cases hlast
        rw [List.getLast?_eq_none_iff.mp hpath] at hrest
        obtain rfl : 0 = m := hrest
        rfl
      | some last' =>
        rw [hpath] at hlast
        cases hlast
        exact ih hrest hpath

theorem Chain.unique (h : u.Chain f chain) : ∀ {chain' : List FolderRef}, u.Chain f chain' →
    chain = chain' := by
  induction chain generalizing f with
  | nil =>
    intro chain' h'
    obtain rfl : f = none := h
    cases chain' with
    | nil => rfl
    | cons g rest => cases h'.1
  | cons g rest ih =>
    intro chain' h'
    obtain ⟨rfl, hrest⟩ := h
    cases chain' with
    | nil => cases h'
    | cons g' rest' =>
      obtain ⟨hg, hrest'⟩ := h'
      obtain rfl := Option.some.inj hg
      rw [ih hrest hrest']

/-- What comes after a folder in a chain is the chain of the folder that it is in. -/
theorem Chain.after {before after : List FolderRef} {g : FolderRef}
    (h : u.Chain f (before ++ g :: after)) : u.Chain (u.parent g.id) after := by
  induction before generalizing f with
  | nil => exact h.2
  | cons b before ih => exact ih h.2

/-- No folder is twice in a chain: what comes after it would be the same twice. -/
theorem Chain.nodup (h : u.Chain f chain) : (chain.map (·.id)).Nodup := by
  induction chain generalizing f with
  | nil => exact List.nodup_nil
  | cons g rest ih =>
    refine List.nodup_cons.mpr ⟨fun hmem => ?_, ih h.2⟩
    obtain ⟨g', hg', hid⟩ := List.mem_map.mp hmem
    obtain ⟨before, after, rfl⟩ := List.append_of_mem hg'
    have hagain : u.Chain (u.parent g'.id) (before ++ g' :: after) := by
      rw [hid]
      exact h.2
    have hafter := (Chain.after h.2).unique hagain
    have hlength := congrArg List.length hafter
    simp at hlength
    omega

/-- The folders of a path have ids. -/
theorem path_named (n : Nat) : ∀ {f : Option FolderRef}, (∀ g ∈ f, g.id ≠ "") →
    ∀ g ∈ u.path n f, g.id ≠ "" := by
  induction n with
  | zero => exact fun _ g hg => nomatch hg
  | succ n ih =>
    intro f hnamed g hg
    cases f with
    | none => cases hg
    | some first =>
      rcases List.mem_cons.mp hg with rfl | hg
      · exact hnamed g rfl
      · exact ih (u.parent_named first.id) g hg

end Upstream

/-! ## What the queries come to -/

section Queries

variable {u : Upstream} (fails : Failures)

/-- The nested answer is a path. -/
theorem unfoldChain_select (n : Nat) : ∀ {f : Option FolderRef}, (∀ g ∈ f, g.id ≠ "") →
    unfoldChain (u.select (nestedParentFolder n) f) = u.path n f := by
  induction n with
  | zero =>
    intro f hnamed
    cases f <;> rfl
  | succ n ih =>
    intro f hnamed
    cases f with
    | none => rfl
    | some g =>
      show unfoldChain (.folder g.id g.name _) = g :: u.path n (u.parent g.id)
      rw [unfoldChain, if_neg (hnamed g rfl), ih (u.parent_named g.id)]

/-- The walk is a path, unless one of its queries fails. -/
theorem walkFolders_cases (left : Nat) : ∀ {trip : Nat} {cur : String}, cur ≠ "" →
    walkFolders u fails left trip cur = .ok (u.path left (u.parent cur)) ∨
      ∃ n e, n < trip + left ∧ (fails n).isSome ∧ walkFolders u fails left trip cur = .error e := by
  induction left with
  | zero => exact fun _ => .inl rfl
  | succ left ih =>
    intro trip cur hcur
    rw [walkFolders, if_neg hcur]
    cases hfails : fails trip with
    | some e => exact .inr ⟨trip, _, by omega, by simp [hfails], rfl⟩
    | none =>
      cases hparent : u.parent cur with
      | none => exact .inl rfl
      | some g =>
        have hg : g.id ≠ "" := u.parent_named cur g hparent
        simp only [Option.getD_some, if_neg hg]
        obtain hok | ⟨n, e, hlt, hn, herror⟩ : _ ∨ ∃ n e, n < trip + 1 + left ∧ _ := ih hg
        · rw [hok]
          exact .inl rfl
        · rw [herror]
          exact .inr ⟨n, e, by omega, hn, rfl⟩

/-- A walk that makes all of its queries fails when one of them does. -/
theorem walkFolders_fails (left : Nat) : ∀ {trip n : Nat} {cur : String}, cur ≠ "" →
    (u.path left (u.parent cur)).length = left → trip ≤ n → n < trip + left → (fails n).isSome →
    ∃ e, walkFolders u fails left trip cur = .error e := by
  induction left with
  | zero => exact fun _ _ hle hlt _ => absurd hlt (Nat.not_lt.mpr hle)
  | succ left ih =>
    intro trip n cur hcur hlength hle hlt hn
    rw [walkFolders, if_neg hcur]
    cases hfails : fails trip with
    | some e => exact ⟨_, rfl⟩
    | none =>
      have hlater : trip + 1 ≤ n := by
        rcases Nat.eq_or_lt_of_le hle with rfl | hlt'
        · rw [hfails] at hn
          cases hn
        · exact hlt'
      cases hparent : u.parent cur with
      | none =>
        rw [hparent, Upstream.path_none] at hlength
        cases hlength
      | some g =>
        have hg : g.id ≠ "" := u.parent_named cur g hparent
        rw [hparent] at hlength
        obtain ⟨e, herror⟩ := ih hg (Nat.succ.inj hlength) hlater (by omega) hn
        simp only [Option.getD_some, if_neg hg, herror]
        exact ⟨e, rfl⟩

/-- The folders that a location can have. -/
def maxFolders : Nat := locateDepth + 100

/-- The nested answer has all of the folders when it could have had more. -/
theorem folderPath_short (h : (u.path locateDepth u.itemFolder).length < locateDepth) :
    folderPath u fails = .ok (u.path maxFolders u.itemFolder).reverse := by
  have hpath : u.path maxFolders u.itemFolder = u.path locateDepth u.itemFolder := by
    rw [(Upstream.chain_of_lt _ h).path, List.take_of_length_le]
    exact Nat.le_trans (Nat.le_of_lt h) (Nat.le_add_right _ _)
  unfold folderPath
  rw [unfoldChain_select locateDepth u.item_named, hpath]
  simp [Nat.not_le.mpr h, Except.map]

/-- The walk goes on from the last folder of a nested answer that has as many as it can. -/
theorem folderPath_full (h : ¬ (u.path locateDepth u.itemFolder).length < locateDepth) :
    ∃ last : FolderRef, last.id ≠ "" ∧ u.path maxFolders u.itemFolder =
        u.path locateDepth u.itemFolder ++ u.path 100 (u.parent last.id) ∧
      folderPath u fails = (walkFolders u fails 100 1 last.id).map fun rest =>
        (u.path locateDepth u.itemFolder ++ rest).reverse := by
  have hfull : (u.path locateDepth u.itemFolder).length = locateDepth :=
    Nat.le_antisymm (Upstream.length_path_le _ _) (Nat.not_lt.mp h)
  obtain ⟨last, hlast⟩ : ∃ last, (u.path locateDepth u.itemFolder).getLast? = some last := by
    refine Option.isSome_iff_exists.mp (List.getLast?_isSome.mpr fun hnil => ?_)
    rw [hnil] at hfull
    cases hfull
  have hnamed : last.id ≠ "" :=
    Upstream.path_named locateDepth u.item_named last (List.mem_of_getLast? hlast)
  refine ⟨last, hnamed, ?_, ?_⟩
  · rw [maxFolders, Upstream.path_append, Upstream.above_of_getLast locateDepth hfull hlast]
  · unfold folderPath
    rw [unfoldChain_select locateDepth u.item_named]
    simp [hfull, hlast, hnamed]

/-- The folders are the path of the item, as long as it can be, or a query fails. -/
theorem folderPath_cases :
    folderPath u fails = .ok (u.path maxFolders u.itemFolder).reverse ∨
      ∃ n e, n ≤ 100 ∧ (fails n).isSome ∧ folderPath u fails = .error e := by
  by_cases h : (u.path locateDepth u.itemFolder).length < locateDepth
  · exact .inl (folderPath_short fails h)
  · obtain ⟨last, hnamed, hpath, hwalk⟩ := folderPath_full fails h
    rw [hwalk, hpath]
    rcases walkFolders_cases fails 100 hnamed with hok | ⟨n, e, hlt, hn, herror⟩
    · rw [hok]
      exact .inl rfl
    · rw [herror]
      exact .inr ⟨n, e, by omega, hn, rfl⟩

/-- With as many folders as a location can have, every query is made. -/
theorem folderPath_fails (h : ¬ (u.path maxFolders u.itemFolder).length < maxFolders) {n : Nat}
    (hpos : 1 ≤ n) (hle : n ≤ 100) (hn : (fails n).isSome) : ∃ e, folderPath u fails = .error e := by
  have hnested : ¬ (u.path locateDepth u.itemFolder).length < locateDepth := by
    intro hshort
    refine h ?_
    rw [(Upstream.chain_of_lt _ hshort).path]
    exact Nat.lt_of_le_of_lt (List.length_take_le' _ _)
      (Nat.lt_of_lt_of_le hshort (Nat.le_add_right _ _))
  obtain ⟨last, hnamed, hpath, hwalk⟩ := folderPath_full fails hnested
  have hlength : (u.path 100 (u.parent last.id)).length = 100 := by
    have hnested' := Upstream.length_path_le (u := u) locateDepth u.itemFolder
    have hwalked := Upstream.length_path_le (u := u) 100 (u.parent last.id)
    rw [hpath, List.length_append, maxFolders] at h
    omega
  obtain ⟨e, herror⟩ := walkFolders_fails fails 100 hnamed hlength hpos (by omega) hn
  rw [hwalk, herror]
  exact ⟨e, rfl⟩

end Queries

/-! ## Whether the location is whole -/

/-- The folders of a location are all those above the item, each of them once. -/
structure Located (u : Upstream) (loc : ItemLocation) : Prop where
  chain : ∃ chain, u.Chain u.itemFolder chain ∧ loc.folderPath = chain.reverse
  once : (loc.folderPath.map (·.id)).Nodup

/-- **A location is whole, or there is an error, exactly when** there are no more folders than a
location can have, or there is no project, or one of the queries that may be made fails. -/
theorem located_iff (u : Upstream) (fails : Failures) (itemID : String) :
    (∀ loc, getItemLocation u fails itemID = .ok loc → Located u loc) ↔
      (∃ chain, u.Chain u.itemFolder chain ∧ chain.length ≤ maxFolders) ∨ u.projectID = "" ∨
        ∃ n ≤ 100, (fails n).isSome := by
  constructor
  · intro h
    by_contra hnot
    push Not at hnot
    obtain ⟨hlong, hproject, hanswered⟩ := hnot
    have hpath : folderPath u fails = .ok (u.path maxFolders u.itemFolder).reverse := by
      rcases folderPath_cases (u := u) fails with hok | ⟨n, e, hle, hn, -⟩
      · exact hok
      · exact absurd hn (hanswered n hle)
    have hfirst : fails 0 = none := Option.not_isSome_iff_eq_none.mp (hanswered 0 (Nat.zero_le _))
    obtain ⟨chain, hchain, hreverse⟩ :=
      (h _ (by rw [getItemLocation, hfirst, hpath]; exact if_neg hproject)).chain
    -- what was found is all there is
    have hlength := Upstream.length_path_le (u := u) maxFolders u.itemFolder
    rw [List.reverse_injective hreverse] at hlength
    have hmore := hlong chain hchain
    omega
  · intro h loc hloc
    obtain ⟨hfirst, hproject, hpath⟩ : fails 0 = none ∧ u.projectID ≠ "" ∧
        folderPath u fails = .ok loc.folderPath := by
      unfold getItemLocation at hloc
      split at hloc
      · cases hloc
      · next hfirst =>
        split at hloc
        · cases hloc
        · next hproject =>
          refine ⟨hfirst, hproject, ?_⟩
          cases hpath : folderPath u fails with
          | error e =>
            rw [hpath] at hloc
            cases hloc
          | ok path =>
            rw [hpath] at hloc
            cases hloc
            rfl
    have hshort : ∃ chain, u.Chain u.itemFolder chain ∧ chain.length ≤ maxFolders := by
      by_contra hlong
      obtain hnone | ⟨n, hle, hn⟩ := h.resolve_left hlong
      · exact hproject hnone
      · have hpos : 1 ≤ n := Nat.one_le_iff_ne_zero.mpr fun hzero => by
          rw [hzero, hfirst] at hn
          cases hn
        have hfull : ¬ (u.path maxFolders u.itemFolder).length < maxFolders := fun hlt =>
          hlong ⟨_, Upstream.chain_of_lt _ hlt, Nat.le_of_lt hlt⟩
        obtain ⟨e, herror⟩ := folderPath_fails fails hfull hpos hle hn
        rw [herror] at hpath
        cases hpath
    obtain ⟨chain, hchain, hle⟩ := hshort
    have hfound : loc.folderPath = chain.reverse := by
      rcases folderPath_cases (u := u) fails with hok | ⟨n, e, -, -, herror⟩
      · rw [hok, hchain.path, List.take_of_length_le hle] at hpath
        exact (Except.ok.inj hpath).symm
      · rw [herror] at hpath
        cases hpath
    refine ⟨⟨chain, hchain, hfound⟩, ?_⟩
    rw [hfound, List.map_reverse]
    exact (List.reverse_perm _).nodup_iff.mpr hchain.nodup

/-- A document in a folder that is in itself. -/
def cyclic : Upstream where
  hubID := "h"
  projectID := "p"
  projectAltID := "a"
  projectName := "Gears"
  itemFolder := some { id := "f", name := "Parts" }
  parent _ := some { id := "f", name := "Parts" }
  item_named f hf := by
    obtain rfl := Option.some.inj hf
    decide
  parent_named _ f hf := by
    obtain rfl := Option.some.inj hf
    decide

theorem cyclic_path (n : Nat) : cyclic.path n cyclic.itemFolder = List.replicate n ⟨"f", "Parts"⟩ := by
  induction n with
  | zero => rfl
  | succ n ih => exact congrArg (List.cons _) ih

theorem cyclic_cut : ∃ loc, getItemLocation cyclic (fun _ => none) "i" = .ok loc ∧
    loc.folderPath.length = 108 ∧ ¬ Located cyclic loc := by
  have hpath : folderPath cyclic (fun _ => none) =
      .ok (List.replicate maxFolders ⟨"f", "Parts"⟩).reverse := by
    rcases folderPath_cases (u := cyclic) (fun _ => none) with hok | ⟨n, e, -, hn, -⟩
    · rw [hok, cyclic_path]
    · cases hn
  refine ⟨_, by rw [getItemLocation, hpath]; rfl, ?_, fun h => ?_⟩
  · rw [List.length_reverse, List.length_replicate]
    rfl
  -- a chain would go on
  obtain ⟨chain, hchain, -⟩ := h.chain
  have hmore := congrArg List.length (hchain.path (chain.length + 1))
  rw [cyclic_path, List.length_replicate, List.take_of_length_le (Nat.le_succ _)] at hmore
  omega

end FusionLocalServer.Api
