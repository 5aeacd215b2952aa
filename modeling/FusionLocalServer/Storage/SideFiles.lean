import FusionLocalServer.Lib.Run
import FusionLocalServer.Notifications.Types
import FusionLocalServer.Pins.Load
import FusionLocalServer.Production.Loading

/-!
# What loads put aside

A load that makes nothing of a file renames it to one side name, and one that migrates a file keeps
what it read in a snapshot for the version, of which the first stays. The side name has one file: the
next one renamed there takes its place, and a rename that fails is passed over, after which the next
save takes the place of the file itself.

- `load_cases` is what a load does to the files.
- `recovery_keeps_iff`: all that was put aside is kept just when no load and no save is such a one.
-/

namespace FusionLocalServer.Storage

open Lib Lib.Json

namespace SideFiles

abbrev Bytes := List UInt8

/-- The file of a store, `.bak` beside it, and its snapshots `.v<N>.bak`. -/
structure Files where
  main : Option Bytes
  bak : Option Bytes := none
  snaps : List (Int × Bytes) := []
deriving DecidableEq

/-- What a load meets with. -/
structure LoadEnv where
  readFails : Bool := false
  statFails : Bool := false
  copyFails : Bool := false
  renameFails : Bool := false

/-- How a store reads its file: the migrations, and what it decodes; for pins also the bare list. -/
structure Loader (α : Type) where
  registry : Registry
  decode : Json → Option α
  isLegacy : Bytes → Bool := fun _ => false
  decodeList : Json → Option α := fun _ => none

namespace Files

variable (env : LoadEnv) (f : Files)

def hasSnapshot (v : Int) : Bool := f.snaps.any (·.1 = v)

/-- A snapshot is attempted where there is none yet. -/
def attempts (v : Int) : Bool := !f.hasSnapshot v && !env.statFails

def snapshot (v : Int) (data : Bytes) : Files :=
  if f.attempts env v && !env.copyFails then { f with snaps := f.snaps ++ [(v, data)] } else f

/-- `_ = os.Rename(path, path+".bak")` -/
def setAside : Files := if env.renameFails then f else { f with main := none, bak := f.main }

/-- A save, or what else writes the file. -/
def write (content : Option Bytes) : Files := { f with main := content }

end Files

section

variable {α : Type} (number : List Char → Option (List Char)) (l : Loader α)

/-- The version of a document that is to be migrated. -/
def Loader.olderVersion (data : Bytes) : Option Int :=
  if l.isLegacy data then some 0
  else ((parse (decodeUtf8 data)).bind peek).filter fun v => v < l.registry.target

/-- A load makes nothing of a file: it does not decode, or its migration has no snapshot. -/
def Loader.Undecodable (env : LoadEnv) (f : Files) (data : Bytes) : Prop :=
  if l.isLegacy data then ((parse (decodeUtf8 data)).bind l.decodeList).isNone
  else
    let copyFails := (l.olderVersion data).any fun v => f.attempts env v && env.copyFails
    match l.registry.decodeFile number l.decode copyFails data with
    | .error .failed => True
    | _ => False

instance (env : LoadEnv) (f : Files) (data : Bytes) :
    Decidable (l.Undecodable number env f data) := by
  unfold Loader.Undecodable
  dsimp only
  split
  · infer_instance
  · split <;> infer_instance

/-- What a load did: the files, and what it kept of them. -/
structure Outcome where
  files : Files
  kept : List Bytes := []

/-- `loadFile`, and `Load` of the pins. -/
def load (env : LoadEnv) (f : Files) : Outcome :=
  match f.main with
  | none => { files := f }
  | some data =>
    if env.readFails then { files := f }
    else if l.isLegacy data then
      -- a bare list is snapshotted once it is decoded
      if l.Undecodable number env f data then { files := f.setAside env, kept := [data] }
      else { files := f.snapshot env 0 data, kept := copied (f.snapshot env 0 data) data }
    else
      let copy := ((l.olderVersion data).map fun v => f.snapshot env v data).getD f
      if l.Undecodable number env f data then
        { files := copy.setAside env, kept := data :: copied copy data }
      else { files := copy, kept := copied copy data }
where
  copied (copy : Files) (data : Bytes) : List Bytes :=
    if copy.snaps = f.snaps then [] else [data]

end

/-! ## Histories -/

/-- The files, and all that loads have put aside. -/
structure History where
  files : Files
  kept : List Bytes := []

inductive Event where
  | load (env : LoadEnv)
  | save (data : Bytes)
  /-- The file is damaged, or restored. -/
  | damage (content : Option Bytes)

def step {α : Type} (number : List Char → Option (List Char)) (l : Loader α) (st : History) :
    Event → History
  | .load env =>
    let o := load number l env st.files
    { files := o.files, kept := st.kept ++ o.kept }
  | .save data => { st with files := st.files.write (some data) }
  | .damage content => { st with files := st.files.write content }

/-- A content is in a file beside that of the store. -/
def Files.Beside (f : Files) (c : Bytes) : Prop := f.bak = some c ∨ c ∈ f.snaps.map (·.2)

/-- It is there, or in the file itself, where a rename left it. -/
def Files.Readable (f : Files) (c : Bytes) : Prop := f.main = some c ∨ f.Beside c

/-- All that was put aside can be read. -/
def Kept (st : History) : Prop := ∀ c ∈ st.kept, st.files.Readable c

instance (f : Files) (c : Bytes) : Decidable (f.Beside c) := inferInstanceAs (Decidable (_ ∨ _))

instance (f : Files) (c : Bytes) : Decidable (f.Readable c) := inferInstanceAs (Decidable (_ ∨ _))

instance (st : History) : Decidable (Kept st) := inferInstanceAs (Decidable (∀ c ∈ _, _))

/-- What takes the place of the file is it again, or the file is not one that was to be put aside,
or is beside it as well. -/
def Covers (st : History) (content : Option Bytes) : Prop :=
  ∀ c, st.files.main = some c → c ∈ st.kept → content = some c ∨ st.files.Beside c

/-- A load that puts a file aside finds no other one under the side name that was put aside and is in
no snapshot; and nothing takes the place of a file that could not be put aside. -/
def Spares {α : Type} (number : List Char → Option (List Char)) (l : Loader α) (st : History) :
    Event → Prop
  | .load env => ∀ data, st.files.main = some data → env.readFails = false →
      l.Undecodable number env st.files data → env.renameFails = false →
      ∀ b, st.files.bak = some b → b ∈ st.kept → b = data ∨ b ∈ st.files.snaps.map (·.2)
  | .save data => Covers st (some data)
  | .damage content => Covers st content

section Steps

variable {α : Type} {number : List Char → Option (List Char)} {l : Loader α} {env : LoadEnv}
  {f : Files} {data : Bytes}

/-- At most one snapshot more. -/
structure Copies (f : Files) (data : Bytes) (copy : Files) : Prop where
  main : copy.main = f.main
  bak : copy.bak = f.bak
  old : ∀ c ∈ f.snaps.map (·.2), c ∈ copy.snaps.map (·.2)
  new : ∀ c ∈ copy.snaps.map (·.2), c ∈ f.snaps.map (·.2) ∨ c = data

theorem copies_self (f : Files) (data : Bytes) : Copies f data f :=
  ⟨rfl, rfl, fun _ h => h, fun _ h => .inl h⟩

theorem copies_snapshot (env : LoadEnv) (f : Files) (v : Int) (data : Bytes) :
    Copies f data (f.snapshot env v data) := by
  unfold Files.snapshot
  split
  · refine ⟨rfl, rfl, fun c hc => ?_, fun c hc => ?_⟩
    · rw [List.map_append]
      exact List.mem_append_left _ hc
    · rw [List.map_append] at hc
      exact (List.mem_append.mp hc).imp_right List.mem_singleton.mp
  · exact copies_self f data

theorem mem_copied {copy : Files} {c : Bytes} (h : c ∈ load.copied f copy data) : c = data := by
  unfold load.copied at h
  split at h
  · cases h
  · exact List.mem_singleton.mp h

/-- **What a load does to the files**: nothing, or a snapshot, and it puts aside what it makes nothing
of. -/
theorem load_cases (hmain : f.main = some data) :
    (∀ c ∈ (load number l env f).kept, c = data) ∧
      ∃ copy, Copies f data copy ∧ (load number l env f).files =
        if env.readFails = false ∧ l.Undecodable number env f data then copy.setAside env
        else copy := by
  unfold load
  rw [hmain]
  dsimp only
  split
  · next hread => exact ⟨fun c hc => absurd hc List.not_mem_nil, f, copies_self f data, by simp [hread]⟩
  · next hread =>
    have hread : env.readFails = false := Bool.eq_false_iff.mpr hread
    split
    · by_cases hbad : l.Undecodable number env f data
      · rw [if_pos hbad]
        exact ⟨fun c hc => List.mem_singleton.mp hc, f, copies_self f data,
          (if_pos ⟨hread, hbad⟩).symm⟩
      · rw [if_neg hbad]
        exact ⟨fun c hc => mem_copied hc, _, copies_snapshot env f 0 data,
          (if_neg fun h => hbad h.2).symm⟩
    · have hcopy : Copies f data
          (((l.olderVersion data).map fun v => f.snapshot env v data).getD f) := by
        cases l.olderVersion data with
        | none => exact copies_self f data
        | some v => exact copies_snapshot env f v data
      by_cases hbad : l.Undecodable number env f data
      · rw [if_pos hbad]
        exact ⟨fun c hc => (List.mem_cons.mp hc).elim id mem_copied, _, hcopy,
          (if_pos ⟨hread, hbad⟩).symm⟩
      · rw [if_neg hbad]
        exact ⟨fun c hc => mem_copied hc, _, hcopy, (if_neg fun h => hbad h.2).symm⟩

theorem kept_write_iff {st : History} (h : Kept st) (content : Option Bytes) :
    Kept { st with files := st.files.write content } ↔ Covers st content := by
  constructor
  · exact fun hkept c _ hc => hkept c hc
  · intro hcovers c hc
    rcases h c hc with hmain | hbeside
    · exact hcovers c hmain hc
    · exact .inr hbeside

/-- What was put aside before a load is so after it, but for what it takes the place of. -/
theorem kept_load_iff {st : History} (h : Kept st) :
    Kept (step number l st (.load env)) ↔ Spares number l st (.load env) := by
  cases hmain : st.files.main with
  | none =>
    have hload : load number l env st.files = { files := st.files } := by
      unfold load
      rw [hmain]
    constructor
    · intro _ data hdata
      exact absurd (hmain.symm.trans hdata) (Option.some_ne_none data).symm
    · intro _ c hc
      show (load number l env st.files).files.Readable c
      have hc : c ∈ st.kept ++ (load number l env st.files).kept := hc
      rw [hload] at hc ⊢
      rw [List.append_nil] at hc
      exact h c hc
  | some data =>
    obtain ⟨hkept, copy, hcopy, hfiles⟩ :
        (∀ c ∈ (load number l env st.files).kept, c = data) ∧
          ∃ copy, Copies st.files data copy ∧ (load number l env st.files).files =
            if env.readFails = false ∧ l.Undecodable number env st.files data then
              copy.setAside env else copy := load_cases hmain
    have hold : ∀ c, st.files.Readable c → copy.Readable c := fun c hc => by
      unfold Files.Readable Files.Beside at hc ⊢
      rw [hcopy.main, hcopy.bak]
      exact hc.imp_right (Or.imp_right (hcopy.old c))
    have hdata : copy.Readable data := .inl (hcopy.main.trans hmain)
    show (∀ c ∈ st.kept ++ (load number l env st.files).kept,
      (load number l env st.files).files.Readable c) ↔ _
    rw [hfiles]
    by_cases haside : env.readFails = false ∧ l.Undecodable number env st.files data
    · rw [if_pos haside]
      unfold Files.setAside
      by_cases hrename : env.renameFails = true
      · -- the file is still where it was
        rw [if_pos hrename]
        constructor
        · intro _ data' _ _ _ hok
          exact absurd (hok.symm.trans hrename) Bool.false_ne_true
        · intro _ c hc
          rcases List.mem_append.mp hc with hc | hc
          · exact hold c (h c hc)
          · exact hkept c hc ▸ hdata
      · rw [if_neg hrename]
        constructor
        · intro hall data' hdata' _ _ _ b hb hbk
          have heq : data = data' := Option.some.inj (hmain.symm.trans hdata')
          rcases hall b (List.mem_append_left _ hbk) with hnone | hbak | hsnap
          · cases hnone
          · have hbak : some data = some b := (hcopy.main.trans hmain).symm.trans hbak
            exact .inl ((Option.some.inj hbak).symm.trans heq)
          · exact (hcopy.new b hsnap).symm.imp_left fun hb => hb.trans heq
        · intro hspares c hc
          have hmoved : copy.main = some data := hcopy.main.trans hmain
          rcases List.mem_append.mp hc with hc | hc
          · rcases h c hc with hmain' | hbak | hsnap
            · have heq : data = c := Option.some.inj (hmain.symm.trans hmain')
              exact .inr (.inl (hmoved.trans (congrArg some heq)))
            · rcases hspares data hmain haside.1 haside.2 (Bool.eq_false_iff.mpr hrename) c hbak hc
                with heq | hsnap
              · exact .inr (.inl (hmoved.trans (congrArg some heq.symm)))
              · exact .inr (.inr (hcopy.old c hsnap))
            · exact .inr (.inr (hcopy.old c hsnap))
          · rw [hkept c hc]
            exact .inr (.inl hmoved)
    · rw [if_neg haside]
      constructor
      · intro _ data' hdata' hread hbad
        have heq : data = data' := Option.some.inj (hmain.symm.trans hdata')
        exact absurd ⟨hread, heq ▸ hbad⟩ haside
      · intro _ c hc
        rcases List.mem_append.mp hc with hc | hc
        · exact hold c (h c hc)
        · exact hkept c hc ▸ hdata

theorem kept_step_iff {st : History} (h : Kept st) (e : Event) :
    Kept (step number l st e) ↔ Spares number l st e := by
  cases e with
  | load env => exact kept_load_iff h
  | save data => exact kept_write_iff h (some data)
  | damage content => exact kept_write_iff h content

/-- All that loads put aside is kept in each state of a history. -/
def AlwaysKept (number : List Char → Option (List Char)) (l : Loader α) (f : Files)
    (events : List Event) : Prop :=
  Throughout (step number l) (fun st e => Kept (step number l st e)) { files := f } events

/-- Each event of a history leaves what was put aside. -/
def AlwaysSpares (number : List Char → Option (List Char)) (l : Loader α) (f : Files)
    (events : List Event) : Prop :=
  Throughout (step number l) (Spares number l) { files := f } events

theorem alwaysKept_iff (number : List Char → Option (List Char)) (l : Loader α) (f : Files)
    (events : List Event) : AlwaysKept number l f events ↔ AlwaysSpares number l f events :=
  throughout_iff (fun _ h e _ => kept_step_iff h e) (fun _ _ _ _ h => h)
    fun _ hc => absurd hc List.not_mem_nil

end Steps

/-! ## The stores -/

def production {α : Type} (decode : Json → Option α) : Loader α where
  registry := Production.Loading.registry
  decode

def notifications {α : Type} (decode : Json → Option α) : Loader α where
  registry := { target := Notifications.fileVersion, steps := fun _ => none }
  decode

def pins {α : Type} (decodeList decode : Json → Option α) : Loader α where
  registry := Pins.registry
  decode
  isLegacy := Pins.isLegacyArray
  decodeList

/-- **What loads put aside is kept** exactly in the histories in which no file is put aside over
another one, and none that could not be put aside is written over. -/
theorem recovery_keeps_iff {Jobs Inbox Pin : Type} (number : List Char → Option (List Char))
    (decodeJobs : Json → Option Jobs) (decodeInbox : Json → Option Inbox)
    (decodePinList decodePins : Json → Option (List Pin)) (f : Files) (events : List Event) :
    (AlwaysKept number (production decodeJobs) f events ↔
      AlwaysSpares number (production decodeJobs) f events) ∧
    (AlwaysKept number (notifications decodeInbox) f events ↔
      AlwaysSpares number (notifications decodeInbox) f events) ∧
    (AlwaysKept number (pins decodePinList decodePins) f events ↔
      AlwaysSpares number (pins decodePinList decodePins) f events) :=
  ⟨alwaysKept_iff number _ f events, alwaysKept_iff number _ f events,
    alwaysKept_iff number _ f events⟩

/-- The file of a store, torn twice. -/
def tornTwice : List Event :=
  [.damage (some (encodeUtf8 "\x7b\"version\":3,".toList)), .load {},
    .save (encodeUtf8 "\x7b\"version\":3,\"jobs\":[]\x7d".toList), .damage (some []), .load {}]

/-- The second torn file takes the place of the first one. -/
theorem tornTwice_not_kept :
    let jobs := fun _ : Json => some ([] : List Unit)
    ¬ Kept (tornTwice.foldl (step some (production jobs)) { files := { main := none } }) := by
  decide +kernel

end SideFiles

end FusionLocalServer.Storage
