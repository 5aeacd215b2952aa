import Mathlib.Logic.Function.Basic
import FusionLocalServer.Lib.Run
import FusionLocalServer.Storage.ProjectDir

/-!
# Hub profiles

Every hub has a profile directory under `hubs/`, named by its slug, in which all that is kept for
the hub is written. Slugs are lossy, and `hub.json` says which hub a directory is of. A file that
is missing or cannot be read back is written anew, for whoever asks.

The data files carry the hub id under which they were written.
-/

namespace Hubs

open Lib (Path)
open Lib.Path
open FusionLocalServer.Storage

/-- `hubslug.Slug`, the function the stores have for project ids. -/
def slug (hubID : String) : String := sanitizeID hubID

/-- What `hub.json` reads as. -/
inductive HubJSON where
  | missing
  /-- Another error than that there is none. -/
  | unreadable
  | undecodable
  | decoded (hubID hubName : String)
deriving DecidableEq

/-- Nobody can tell from `hub.json` whose the profile is. -/
def HubJSON.anonymous : HubJSON → Bool
  | .missing | .undecodable => true
  | .unreadable => false
  | .decoded hubID _ => hubID == ""

/-- The operation that fails while a profile is opened. -/
inductive Fault where
  | mkdir
  | write
  | stores
deriving DecidableEq

/-- `hub.json` after `ensureHubJSON`, and whether the profile may be opened. -/
def ensureHubJSON (f : HubJSON) (hubID hubName : String) (fault : Option Fault) :
    HubJSON × Bool :=
  let write (old : HubJSON) :=
    if fault = some .write then (old, false) else (.decoded hubID hubName, true)
  match f with
  | .unreadable => (f, false)
  | .missing => write f
  -- the undecodable file is first renamed
  | .undecodable => write .missing
  | .decoded owner name =>
    if owner ≠ "" ∧ owner ≠ hubID then (f, false)
    else if owner = hubID ∧ (hubName = "" ∨ name = hubName) then (f, true)
    else write f

/-- The config directory, with what the process has open. -/
structure World where
  /-- `hub.json`, by profile directory. -/
  hubJSON : Path → HubJSON := fun _ => .missing
  /-- The data files, with the hub id they were written under. -/
  data : List (Path × String) := []
  /-- The store sets that are built, by slug: the hub id each was built for. -/
  sets : String → Option String := fun _ => none

inductive Damage where
  | lost
  | unreadable
  | garbled
  /-- It decodes, and names no hub. -/
  | anonymous (hubName : String)

def Damage.leaves : Damage → HubJSON
  | lost => .missing
  | unreadable => .unreadable
  | garbled => .undecodable
  | anonymous hubName => .decoded "" hubName

inductive Event where
  /-- `hubStores.get` -/
  | get (hubID hubName : String) (fault : Option Fault)
  /-- A store of the set that is open for a hub writes a file, somewhere below the profile. -/
  | write (hubID : String) (file : Path)
  | damage (hubID : String) (how : Damage)
  | restart

section

variable (configDir : Path)

/-- `hubslug.ProfileDir` -/
def profileDir (hubID : String) : Path := join (join configDir "hubs") (slug hubID)

namespace World

variable (w : World)

/-- `hubStores.build`, and the built set's place in the map. -/
def build (hubID hubName : String) (fault : Option Fault) : World × Bool :=
  if fault = some .mkdir then (w, false)
  else
    let root := profileDir configDir hubID
    let (f, opened) := ensureHubJSON (w.hubJSON root) hubID hubName fault
    let w := { w with hubJSON := Function.update w.hubJSON root f }
    if !opened || fault = some .stores then (w, false)
    else ({ w with sets := Function.update w.sets (slug hubID) (some hubID) }, true)

/-- `hubStores.get`: whether a store set is returned. -/
def get (hubID hubName : String) (fault : Option Fault) : World × Bool :=
  if hubID = "" then (w, false)
  else match w.sets (slug hubID) with
  | some owner => (w, owner == hubID)
  | none => w.build configDir hubID hubName fault

/-- The process has a store set for the hub. -/
def Open (hubID : String) : Prop := w.sets (slug hubID) = some hubID

instance (hubID : String) : Decidable (w.Open hubID) := inferInstanceAs (Decidable (_ = _))

def step (w : World) : Event → Option World
  | .get hubID hubName fault => some (w.get configDir hubID hubName fault).1
  | .write hubID file =>
    if w.Open hubID then
      some { w with data := (profileDir configDir hubID ++ file, hubID) :: w.data }
    else none
  | .damage hubID how =>
    some { w with
      hubJSON := Function.update w.hubJSON (profileDir configDir hubID) how.leaves }
  | .restart => some { w with sets := fun _ => none }

/-- All that is written below a directory was written under one hub id. -/
def Only (dir : Path) (hubID : String) : Prop := ∀ d ∈ w.data, dir <+: d.1 → d.2 = hubID

instance (dir : Path) (hubID : String) : Decidable (w.Only dir hubID) :=
  inferInstanceAs (Decidable (∀ d ∈ w.data, _))

/-- A profile of another id's data is not opened while its `hub.json` names nobody; and the ids
are such that their slugs name a directory below `hubs/`. -/
def Guarded (w : World) : Event → Prop
  | .get hubID _ _ => hubID ≠ "." ∧ hubID ≠ ".." ∧
      (w.sets (slug hubID) = none →
        (w.hubJSON (profileDir configDir hubID)).anonymous = true →
        w.Only (profileDir configDir hubID) hubID)
  | _ => True

instance (w : World) (e : Event) : Decidable (w.Guarded configDir e) := by
  cases e <;> unfold Guarded <;> infer_instance

end World

/-! ## The profiles keep apart -/

/-- The directory that the profiles are in. -/
def hubsDir : Path := join configDir "hubs"

variable {configDir}

theorem profileDir_eq {hubID : String} (hdot : hubID ≠ ".") (hdd : hubID ≠ "..") :
    profileDir configDir hubID = hubsDir configDir ++ [slug hubID] :=
  join_plain (clean_isClean _) (sanitizeID_no_slash hubID) (sanitizeID_plain hdot hdd)

/-- The file after `ensureHubJSON` is as it was, or gone, or names the hub that was let in: then
it named it before, or nobody. -/
theorem ensureHubJSON_cases (f : HubJSON) (hubID hubName : String) (fault : Option Fault) :
    (∃ f', ensureHubJSON f hubID hubName fault = (f', false) ∧ (f' = f ∨ f' = .missing)) ∨
    (∃ name, ensureHubJSON f hubID hubName fault = (.decoded hubID name, true) ∧
      (f.anonymous = true ∨ ∃ name, f = .decoded hubID name)) := by
  cases f with
  | unreadable => exact .inl ⟨_, rfl, .inl rfl⟩
  | missing | undecodable =>
    by_cases hw : fault = some .write
    · exact .inl ⟨.missing, by simp [ensureHubJSON, hw], .inr rfl⟩
    · exact .inr ⟨hubName, by simp [ensureHubJSON, hw], .inl rfl⟩
  | decoded owner name =>
    by_cases hother : owner ≠ "" ∧ owner ≠ hubID
    · exact .inl ⟨_, by simp [ensureHubJSON, hother], .inl rfl⟩
    by_cases hsame : owner = hubID ∧ (hubName = "" ∨ name = hubName)
    · obtain ⟨rfl, hname⟩ := hsame
      exact .inr ⟨name, by simp [ensureHubJSON, hname], .inr ⟨name, rfl⟩⟩
    by_cases hw : fault = some .write
    · exact .inl ⟨.decoded owner name, by simp [ensureHubJSON, hother, hsame, hw], .inl rfl⟩
    · refine .inr ⟨hubName, by simp [ensureHubJSON, hother, hsame, hw], ?_⟩
      by_cases howner : owner = ""
      · exact .inl (by simp [HubJSON.anonymous, howner])
      · refine .inr ⟨name, ?_⟩
        rw [show owner = hubID by tauto]

namespace World

/-- The store sets in memory are of the hubs whose data is in their directories, and so are the
names in the files. -/
structure Inv (configDir : Path) (w : World) : Prop where
  named : ∀ s hubID name, w.hubJSON (hubsDir configDir ++ [s]) = .decoded hubID name →
    hubID ≠ "" → w.Only (hubsDir configDir ++ [s]) hubID
  built : ∀ s hubID, w.sets s = some hubID → s = slug hubID ∧ hubID ≠ "." ∧ hubID ≠ ".."
  owned : ∀ s hubID, w.sets s = some hubID → w.Only (hubsDir configDir ++ [s]) hubID
  agreed : ∀ s hubID owner name, w.sets s = some hubID →
    w.hubJSON (hubsDir configDir ++ [s]) = .decoded owner name → owner ≠ "" → owner = hubID

variable {w : World}

theorem inv_start : Inv configDir {} :=
  ⟨fun _ _ _ h => (nomatch h), fun _ _ h => (nomatch h), fun _ _ h => (nomatch h),
    fun _ _ _ _ h => (nomatch h)⟩

/-- A file that names nobody, or what it named before, or whose data is there alone. -/
theorem Inv.setFile (h : Inv configDir w) (dir : Path) (f : HubJSON)
    (hf : ∀ s hubID name, dir = hubsDir configDir ++ [s] → f = .decoded hubID name → hubID ≠ "" →
      w.Only dir hubID ∧ ∀ owner, w.sets s = some owner → hubID = owner) :
    Inv configDir { w with hubJSON := Function.update w.hubJSON dir f } := by
  refine ⟨fun s hubID name hj hid => ?_, h.built, h.owned, fun s hubID owner name hs hj hid => ?_⟩
  · dsimp only at hj
    by_cases hd : hubsDir configDir ++ [s] = dir
    · rw [hd, Function.update_self] at hj
      exact hd ▸ (hf s hubID name hd.symm hj hid).1
    · rw [Function.update_of_ne hd] at hj
      exact h.named s hubID name hj hid
  · dsimp only at hj
    by_cases hd : hubsDir configDir ++ [s] = dir
    · rw [hd, Function.update_self] at hj
      exact (hf s owner name hd.symm hj hid).2 hubID hs
    · rw [Function.update_of_ne hd] at hj
      exact h.agreed s hubID owner name hs hj hid

theorem Inv.build (h : Inv configDir w) {hubID hubName : String} {fault : Option Fault}
    (hdot : hubID ≠ ".") (hdd : hubID ≠ "..") (hnone : w.sets (slug hubID) = none)
    (hguard : (w.hubJSON (profileDir configDir hubID)).anonymous = true →
      w.Only (profileDir configDir hubID) hubID) :
    Inv configDir (w.build configDir hubID hubName fault).1 := by
  have hdir : profileDir configDir hubID = hubsDir configDir ++ [slug hubID] :=
    profileDir_eq hdot hdd
  unfold World.build
  split
  · exact h
  rcases ensureHubJSON_cases (w.hubJSON (profileDir configDir hubID)) hubID hubName fault with
    ⟨f', hens, hf'⟩ | ⟨name, hens, hbefore⟩
  · -- refused: the file is as it was, or gone
    simp only [hens]
    refine h.setFile _ _ fun s id n hs hf hid => ?_
    rcases hf' with rfl | rfl
    · rw [hs] at hf
      exact ⟨hs ▸ h.named s id n hf hid, fun owner ho => h.agreed s owner id n ho hf hid⟩
    · cases hf
  · have honly : w.Only (profileDir configDir hubID) hubID := by
      rcases hbefore with hanon | ⟨n, hn⟩
      · exact hguard hanon
      · by_cases hid : hubID = ""
        · exact hguard (by rw [hn, hid]; rfl)
        · rw [hdir] at hn ⊢
          exact h.named _ _ _ hn hid
    have hfile : Inv configDir { w with
        hubJSON := Function.update w.hubJSON (profileDir configDir hubID) (.decoded hubID name) } := by
      refine h.setFile _ _ fun s id n hs hf hid => ?_
      cases hf
      refine ⟨honly, fun owner ho => ?_⟩
      -- the slug has no set yet
      rw [hdir] at hs
      obtain rfl : slug hubID = s := by simpa using hs
      exact (nomatch hnone.symm.trans ho)
    simp only [hens, Bool.not_true, Bool.false_or, decide_eq_true_eq]
    split
    · exact hfile
    · -- opened: the new set is of the hub in the file
      refine ⟨hfile.named, fun s id hs => ?_, fun s id hs => ?_, fun s id owner n hs hj hid => ?_⟩
      · by_cases hslug : s = slug hubID
        · subst hslug
          simp only [Function.update_self, Option.some.injEq] at hs
          subst hs
          exact ⟨rfl, hdot, hdd⟩
        · simp only [Function.update_of_ne hslug] at hs
          exact hfile.built s id hs
      · by_cases hslug : s = slug hubID
        · subst hslug
          simp only [Function.update_self, Option.some.injEq] at hs
          subst hs
          exact hdir ▸ honly
        · simp only [Function.update_of_ne hslug] at hs
          exact hfile.owned s id hs
      · by_cases hslug : s = slug hubID
        · subst hslug
          simp only [Function.update_self, Option.some.injEq] at hs
          subst hs
          dsimp only at hj
          rw [← hdir, Function.update_self] at hj
          cases hj
          rfl
        · simp only [Function.update_of_ne hslug] at hs
          exact hfile.agreed s id owner n hs hj hid

theorem Inv.step (h : Inv configDir w) {w' : World} {e : Event} (hguard : w.Guarded configDir e)
    (hstep : w.step configDir e = some w') : Inv configDir w' := by
  cases e with
  | get hubID hubName fault =>
    cases hstep
    obtain ⟨hdot, hdd, honly⟩ := hguard
    unfold World.get
    split
    · exact h
    · split
      · exact h
      · next hnone => exact h.build hdot hdd hnone (honly hnone)
  | write hubID file =>
    simp only [World.step, Option.ite_none_right_eq_some, Option.some.injEq] at hstep
    obtain ⟨hopen, rfl⟩ := hstep
    obtain ⟨-, hdot, hdd⟩ := h.built _ _ hopen
    have hdir : profileDir configDir hubID = hubsDir configDir ++ [slug hubID] :=
      profileDir_eq hdot hdd
    -- the file is below no profile but the hub's own
    have hbelow : ∀ s id, (s = slug hubID → id = hubID) → w.Only (hubsDir configDir ++ [s]) id →
        ∀ d ∈ (profileDir configDir hubID ++ file, hubID) :: w.data,
          hubsDir configDir ++ [s] <+: d.1 → d.2 = id := by
      intro s id hown honly d hd hpre
      rcases List.mem_cons.mp hd with rfl | hd
      · by_cases hs : s = slug hubID
        · exact (hown hs).symm
        · rw [hdir] at hpre
          exact absurd hpre (not_prefix_of_sibling (Ne.symm hs) (List.prefix_append _ _))
      · exact honly d hd hpre
    refine ⟨fun s id name hj hid => ?_, h.built, fun s id hs => ?_, h.agreed⟩
    · refine hbelow s id (fun hs => ?_) (h.named s id name hj hid)
      subst hs
      exact h.agreed _ _ _ _ hopen hj hid
    · refine hbelow s id (fun hslug => ?_) (h.owned s id hs)
      subst hslug
      exact Option.some.inj (hs.symm.trans hopen)
  | damage hubID how =>
    cases hstep
    refine h.setFile _ _ fun s id name _ hf hid => ?_
    cases how <;> cases hf
    exact absurd rfl hid
  | restart =>
    cases hstep
    exact ⟨h.named, fun _ _ hs => (nomatch hs), fun _ _ hs => (nomatch hs),
      fun _ _ _ _ hs => (nomatch hs)⟩

/-- What `get` returns is built for the hub that asked, and stays in the map. -/
theorem get_open {hubID hubName : String} {fault : Option Fault}
    (h : (w.get configDir hubID hubName fault).2 = true) :
    (w.get configDir hubID hubName fault).1.Open hubID := by
  unfold World.get at h ⊢
  split at h
  · cases h
  · next hid =>
    rw [if_neg hid]
    split at h
    · next owner howner =>
      simp only [beq_iff_eq] at h
      exact h ▸ howner
    · unfold World.build at h ⊢
      split at h
      · cases h
      · next hmkdir =>
        rw [if_neg hmkdir]
        simp only at h ⊢
        split at h
        · cases h
        · next hrefused =>
          rw [if_neg hrefused]
          exact Function.update_self _ _ _

/-- A run from an empty config directory, in which no profile of another hub's data is opened
while its `hub.json` names nobody. -/
abbrev Reaches (configDir : Path) (es : List Event) (w : World) : Prop :=
  Lib.Run (fun w e w' => w.step configDir e = some w') (Guarded configDir) {} es w

/-- Whatever hubs are opened and whatever becomes of the `hub.json` files, the store set that a
hub gets, and has, is over a directory that was written for this hub alone. -/
theorem profiles_apart {es : List Event} {w : World} (h : Reaches configDir es w) :
    (∀ hubID, w.Open hubID → w.Only (profileDir configDir hubID) hubID) ∧
    ∀ hubID hubName fault, w.Guarded configDir (.get hubID hubName fault) →
      (w.get configDir hubID hubName fault).2 = true →
      (w.get configDir hubID hubName fault).1.Only (profileDir configDir hubID) hubID := by
  have hinv : Inv configDir w := h.invariant inv_start fun _ _ _ hi hg hs => hi.step hg hs
  have hopen : ∀ {w : World} {hubID}, Inv configDir w → w.Open hubID →
      w.Only (profileDir configDir hubID) hubID := by
    intro w hubID hi ho
    obtain ⟨-, hdot, hdd⟩ := hi.built _ _ ho
    rw [profileDir_eq hdot hdd]
    exact hi.owned _ _ ho
  refine ⟨fun hubID ho => hopen hinv ho, fun hubID hubName fault hguard hret => ?_⟩
  exact hopen (hinv.step hguard rfl) (get_open hret)

/-- Two hubs of one slug, the second after a restart, and the first again over a lost file. -/
def twoHubs : List Event :=
  [.get "hub:x" "X" none, .write "hub:x" ["tasks", "p.json"], .get "hub_x" "Y" none, .restart,
    .get "hub_x" "Y" none, .damage "hub:x" .lost, .get "hub:x" "X" none]

theorem profiles_apart_twoHubs : ∃ w, Reaches ["etc"] twoHubs w ∧ w.Open "hub:x" ∧
    w.Only ["etc", "hubs", "hub_x"] "hub:x" := by
  have hrun : Reaches ["etc"] twoHubs _ := Lib.Run.of_exec twoHubs rfl
  exact ⟨_, hrun, by decide +kernel, (profiles_apart hrun).1 "hub:x" (by decide +kernel)⟩

/-- The file of one hub is damaged, and after a restart another hub of its slug is there first. -/
def adopting : List Event :=
  [.get "hub:x" "X" none, .write "hub:x" ["tasks", "p.json"], .damage "hub:x" .garbled, .restart,
    .get "hub_x" "Y" none]

/-- It has a store set over the first hub's data. -/
theorem profile_adopted : ∃ w, Lib.Run (fun w e w' => World.step ["etc"] w e = some w') Lib.always
    {} adopting w ∧ w.Open "hub_x" ∧
    (["etc", "hubs", "hub_x", "tasks", "p.json"], "hub:x") ∈ w.data ∧
    profileDir ["etc"] "hub_x" = ["etc", "hubs", "hub_x"] :=
  ⟨_, Lib.Run.of_exec adopting rfl, by decide +kernel, by decide +kernel, by decide +kernel⟩

end World

end

end Hubs
