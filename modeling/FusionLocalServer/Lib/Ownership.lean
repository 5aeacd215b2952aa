import Mathlib.Data.List.Flatten
import Mathlib.Data.List.InsertIdx
import FusionLocalServer.Lib.Memory

/-!
# What an object in memory owns

A `Shape` says how a value lies in memory behind a handle: the value, and the cells it
takes up. Shapes are put together from plain data, pointers, pairs and slices, so that the
cells of an object are those of everything that hangs below it.

An object is `Owned` when its cells are distinct: nothing below it is shared. The rules say
what a program does to an owned object. It is changed within its own cells and fresh ones
(`Changes`), or it is made from fresh cells alone (`Fresh`); either way whatever lies apart
from it stays as it was (`Owned.frame`). A change of a part is a change of the whole, so a
program that edits one slice deep inside an object need only be looked at there.
-/

namespace Lib

namespace Memory

variable {C α β ι κ V W : Type}

/-- How a value lies in memory behind a handle. -/
structure Shape (C ι V : Type) where
  val : Memory C → ι → V
  /-- The cells it takes up. -/
  foot : Memory C → ι → List Nat
  /-- Every pointer is to a cell there is, and every slice lies within its array. -/
  wf : Memory C → ι → Prop
  /-- All of it depends on its own cells only. -/
  congr : ∀ {m m' : Memory C} {h : ι}, m.next ≤ m'.next → wf m h →
    (∀ a ∈ foot m h, m'.cell a = m.cell a) →
    val m' h = val m h ∧ foot m' h = foot m h ∧ wf m' h

/-- The object shares none of its cells, neither within itself nor with what is yet to be
made. -/
structure Owned (R : Shape C ι V) (m : Memory C) (h : ι) : Prop where
  wf : R.wf m h
  nodup : (R.foot m h).Nodup
  below : ∀ a ∈ R.foot m h, a < m.next

/-- From `h` in `m` to `h'` in `m'` the object came to be `v`, changed in its own cells and
with fresh ones. -/
structure Changes (R : Shape C ι V) (m : Memory C) (h : ι) (m' : Memory C) (h' : ι) (v : V) :
    Prop where
  touches : Touches m m' (R.foot m h)
  owned : Owned R m' h'
  val : R.val m' h' = v
  within : ∀ a ∈ R.foot m' h', a ∈ R.foot m h ∨ m.next ≤ a

/-- The object `h` was made from fresh cells, and nothing else was written. -/
structure Fresh (R : Shape C ι V) (m m' : Memory C) (h : ι) (v : V) : Prop where
  touches : Touches m m' []
  owned : Owned R m' h
  val : R.val m' h = v
  new : ∀ a ∈ R.foot m' h, m.next ≤ a

variable {R : Shape C ι V} {m m' m'' : Memory C} {h h' h'' : ι} {v w : V}

/-- An owned object apart from what was written is as it was. -/
theorem Owned.frame {cells : List Nat} (ho : Owned R m h) (ht : Touches m m' cells)
    (hout : ∀ a ∈ R.foot m h, a ∉ cells) :
    Owned R m' h ∧ R.val m' h = R.val m h ∧ R.foot m' h = R.foot m h := by
  obtain ⟨hval, hfoot, hwf⟩ := R.congr ht.next ho.wf fun a ha =>
    ht.frame a (ho.below a ha) (hout a ha)
  refine ⟨⟨hwf, by rw [hfoot]; exact ho.nodup, fun a ha => ?_⟩, hval, hfoot⟩
  rw [hfoot] at ha
  exact Nat.lt_of_lt_of_le (ho.below a ha) ht.next

theorem Owned.changes_refl (ho : Owned R m h) : Changes R m h m h (R.val m h) :=
  ⟨Touches.refl m _, ho, rfl, fun _ ha => .inl ha⟩

/-- Nothing of it written, it is as it was. -/
theorem Owned.changes_of_touches (ho : Owned R m h) (ht : Touches m m' []) :
    Changes R m h m' h (R.val m h) := by
  obtain ⟨ho', hval, hfoot⟩ := ho.frame ht fun _ _ hmem => (nomatch hmem)
  exact ⟨ht.mono fun _ hmem => (nomatch hmem), ho', hval, fun a ha => .inl (hfoot ▸ ha)⟩

theorem Changes.trans (h₁ : Changes R m h m' h' v) (h₂ : Changes R m' h' m'' h'' w) :
    Changes R m h m'' h'' w where
  touches := h₁.touches.trans h₂.touches h₁.within
  owned := h₂.owned
  val := h₂.val
  within a ha := by
    rcases h₂.within a ha with hmem | hnew
    · exact h₁.within a hmem
    · exact .inr (Nat.le_trans h₁.touches.next hnew)

theorem Fresh.changes (h₁ : Fresh R m m' h v) (h₂ : Changes R m' h m'' h' w) :
    Fresh R m m'' h' w where
  touches := h₁.touches.trans h₂.touches fun a ha => .inr (h₁.new a ha)
  owned := h₂.owned
  val := h₂.val
  new a ha := by
    rcases h₂.within a ha with hmem | hnew
    · exact h₁.new a hmem
    · exact Nat.le_trans h₁.touches.next hnew

/-- An object made takes the place of another. -/
theorem Fresh.replaces (hf : Fresh R m m' h' v) : Changes R m h m' h' v :=
  ⟨hf.touches.mono fun _ hmem => (nomatch hmem), hf.owned, hf.val, fun a ha => .inr (hf.new a ha)⟩

/-- Two objects apart from each other stay so when one is changed. -/
theorem Changes.apart {S : Shape C κ W} {k : κ} (hc : Changes R m h m' h' v)
    (ho : Owned S m k) (hdisj : ∀ a ∈ S.foot m k, a ∉ R.foot m h) :
    Owned S m' k ∧ S.val m' k = S.val m k ∧ S.foot m' k = S.foot m k ∧
      ∀ a ∈ S.foot m' k, a ∉ R.foot m' h' := by
  obtain ⟨ho', hval, hfoot⟩ := ho.frame hc.touches hdisj
  refine ⟨ho', hval, hfoot, fun a ha hmem => ?_⟩
  rw [hfoot] at ha
  rcases hc.within a hmem with hold | hnew
  · exact hdisj a ha hold
  · exact absurd (ho.below a ha) (by omega)

/-- What there was is as it was when an object is made, and apart from it. -/
theorem Fresh.apart {S : Shape C κ W} {k : κ} (hf : Fresh R m m' h v) (ho : Owned S m k) :
    Owned S m' k ∧ S.val m' k = S.val m k ∧ ∀ a ∈ R.foot m' h, a ∉ S.foot m' k := by
  obtain ⟨ho', hval, hfoot⟩ := ho.frame hf.touches fun _ _ hmem => (nomatch hmem)
  refine ⟨ho', hval, fun a ha hmem => ?_⟩
  rw [hfoot] at hmem
  exact absurd (ho.below a hmem) (by have := hf.new a ha; omega)

/-! ## Plain data, and shapes seen through functions -/

/-- Data without pointers. -/
def plain (C α : Type) : Shape C α α where
  val _ a := a
  foot _ _ := []
  wf _ _ := True
  congr _ _ _ := ⟨rfl, rfl, trivial⟩

theorem plain_owned (m : Memory C) (a : α) : Owned (plain C α) m a :=
  ⟨trivial, List.nodup_nil, fun _ ha => (nomatch ha)⟩

theorem plain_changes (m : Memory C) (a b : α) : Changes (plain C α) m a m b b :=
  ⟨Touches.refl m _, plain_owned m b, rfl, fun _ ha => (nomatch ha)⟩

theorem plain_fresh (m : Memory C) (a : α) : Fresh (plain C α) m m a a :=
  ⟨Touches.refl m _, plain_owned m a, rfl, fun _ ha => (nomatch ha)⟩

/-- The shape of a record from that of its parts. -/
def Shape.via (R : Shape C ι V) (parts : κ → ι) (build : κ → V → W) : Shape C κ W where
  val m k := build k (R.val m (parts k))
  foot m k := R.foot m (parts k)
  wf m k := R.wf m (parts k)
  congr hle hwf hsame := by
    obtain ⟨hval, hfoot, hwf'⟩ := R.congr hle hwf hsame
    exact ⟨by rw [hval], hfoot, hwf'⟩

section Via

variable {parts : κ → ι} {build : κ → V → W} {k k' : κ}

theorem Owned.via (ho : Owned R m (parts k)) : Owned (R.via parts build) m k :=
  ⟨ho.wf, ho.nodup, ho.below⟩

theorem Owned.of_via (ho : Owned (R.via parts build) m k) : Owned R m (parts k) :=
  ⟨ho.wf, ho.nodup, ho.below⟩

theorem Changes.via {x : W} (hc : Changes R m (parts k) m' (parts k') v) (hx : build k' v = x) :
    Changes (R.via parts build) m k m' k' x :=
  ⟨hc.touches, hc.owned.via, (congrArg (build k') hc.val).trans hx, hc.within⟩

theorem Fresh.via {x : W} (hf : Fresh R m m' (parts k) v) (hx : build k v = x) :
    Fresh (R.via parts build) m m' k x :=
  ⟨hf.touches, hf.owned.via, (congrArg (build k) hf.val).trans hx, hf.new⟩

end Via

/-! ## Pairs -/

/-- Two parts of one record. -/
def Shape.pair (R : Shape C ι V) (S : Shape C κ W) : Shape C (ι × κ) (V × W) where
  val m h := (R.val m h.1, S.val m h.2)
  foot m h := R.foot m h.1 ++ S.foot m h.2
  wf m h := R.wf m h.1 ∧ S.wf m h.2
  congr hle hwf hsame := by
    obtain ⟨hval, hfoot, hwf₁⟩ := R.congr hle hwf.1 fun a ha =>
      hsame a (List.mem_append_left _ ha)
    obtain ⟨hval', hfoot', hwf₂⟩ := S.congr hle hwf.2 fun a ha =>
      hsame a (List.mem_append_right _ ha)
    exact ⟨by rw [hval, hval'], by rw [hfoot, hfoot'], hwf₁, hwf₂⟩

section Pair

variable {S : Shape C κ W} {k k' : κ} {x : W}

theorem Owned.pair (ho : Owned R m h) (ho' : Owned S m k)
    (hdisj : ∀ a ∈ S.foot m k, a ∉ R.foot m h) : Owned (R.pair S) m (h, k) where
  wf := ⟨ho.wf, ho'.wf⟩
  nodup := by
    refine List.nodup_append.mpr ⟨ho.nodup, ho'.nodup, fun a ha b hb heq => ?_⟩
    subst heq
    exact hdisj a hb ha
  below a ha := by
    rcases List.mem_append.mp ha with ha | ha
    · exact ho.below a ha
    · exact ho'.below a ha

theorem Owned.of_pair (ho : Owned (R.pair S) m (h, k)) :
    Owned R m h ∧ Owned S m k ∧ ∀ a ∈ S.foot m k, a ∉ R.foot m h := by
  obtain ⟨hnodup, hnodup', hdisj⟩ := List.nodup_append.mp ho.nodup
  exact ⟨⟨ho.wf.1, hnodup, fun a ha => ho.below a (List.mem_append_left _ ha)⟩,
    ⟨ho.wf.2, hnodup', fun a ha => ho.below a (List.mem_append_right _ ha)⟩,
    fun a ha ha' => hdisj a ha' a ha rfl⟩

theorem Changes.pair_left (ho : Owned (R.pair S) m (h, k)) (hc : Changes R m h m' h' v) :
    Changes (R.pair S) m (h, k) m' (h', k) (v, S.val m k) := by
  obtain ⟨-, hoS, hdisj⟩ := ho.of_pair
  obtain ⟨hoS', hval, hfoot, hdisj'⟩ := hc.apart hoS hdisj
  refine ⟨hc.touches.mono fun _ ha => List.mem_append_left _ ha, hc.owned.pair hoS' hdisj',
    Prod.ext hc.val hval, fun a ha => ?_⟩
  rcases List.mem_append.mp ha with ha | ha
  · exact (hc.within a ha).imp_left (List.mem_append_left _)
  · rw [hfoot] at ha
    exact .inl (List.mem_append_right _ ha)

theorem Changes.pair_right (ho : Owned (R.pair S) m (h, k)) (hc : Changes S m k m' k' x) :
    Changes (R.pair S) m (h, k) m' (h, k') (R.val m h, x) := by
  obtain ⟨hoR, -, hdisj⟩ := ho.of_pair
  have hdisj₀ : ∀ a ∈ R.foot m h, a ∉ S.foot m k := fun a ha ha' => hdisj a ha' ha
  obtain ⟨hoR', hval, hfoot, hdisj'⟩ := hc.apart hoR hdisj₀
  refine ⟨hc.touches.mono fun _ ha => List.mem_append_right _ ha,
    hoR'.pair hc.owned fun a ha ha' => hdisj' a ha' ha, Prod.ext hval hc.val, fun a ha => ?_⟩
  rcases List.mem_append.mp ha with ha | ha
  · rw [hfoot] at ha
    exact .inl (List.mem_append_left _ ha)
  · exact (hc.within a ha).imp_left (List.mem_append_right _)

/-- One part made, and then the other. -/
theorem Fresh.pair (h₁ : Fresh R m m' h v) (h₂ : Fresh S m' m'' k x) :
    Fresh (R.pair S) m m'' (h, k) (v, x) := by
  obtain ⟨ho, hval, hfoot⟩ := h₁.owned.frame h₂.touches fun _ _ hmem => (nomatch hmem)
  have hdisj : ∀ a ∈ S.foot m'' k, a ∉ R.foot m'' h := by
    intro a ha ha'
    rw [hfoot] at ha'
    exact absurd (h₁.owned.below a ha') (by have := h₂.new a ha; omega)
  refine ⟨h₁.touches.trans h₂.touches fun _ hmem => (nomatch hmem), ho.pair h₂.owned hdisj,
    Prod.ext (hval.trans h₁.val) h₂.val, fun a ha => ?_⟩
  rcases List.mem_append.mp ha with ha | ha
  · rw [hfoot] at ha
    exact h₁.new a ha
  · exact Nat.le_trans h₁.touches.next (h₂.new a ha)

end Pair

/-! ## Pointers -/

/-- A cell, and what its contents own. -/
def Shape.ptr (view : View C ι) (R : Shape C ι V) : Shape C Nat V where
  val m p := R.val m (m.read view p)
  foot m p := p :: R.foot m (m.read view p)
  wf m p := p < m.next ∧ R.wf m (m.read view p)
  congr hle hwf hsame := by
    have hread := read_congr view (hsame _ List.mem_cons_self)
    obtain ⟨hval, hfoot, hwf'⟩ := R.congr hle hwf.2 fun a ha =>
      hsame a (List.mem_cons_of_mem _ ha)
    rw [hread]
    exact ⟨hval, by rw [hfoot], Nat.lt_of_lt_of_le hwf.1 hle, hwf'⟩

section Ptr

variable {view : View C ι} {p : Nat}

theorem Owned.of_ptr (ho : Owned (R.ptr view) m p) :
    Owned R m (m.read view p) ∧ p ∉ R.foot m (m.read view p) := by
  obtain ⟨hnot, hnodup⟩ := List.nodup_cons.mp ho.nodup
  exact ⟨⟨ho.wf.2, hnodup, fun a ha => ho.below a (List.mem_cons_of_mem _ ha)⟩, hnot⟩

/-- A cell with owned contents apart from it. -/
theorem Owned.ptr (hp : p < m.next) (ho : Owned R m (m.read view p))
    (hnot : p ∉ R.foot m (m.read view p)) : Owned (R.ptr view) m p :=
  ⟨⟨hp, ho.wf⟩, List.nodup_cons.mpr ⟨hnot, ho.nodup⟩, fun a ha => by
    rcases List.mem_cons.mp ha with rfl | ha
    · exact hp
    · exact ho.below a ha⟩

/-- What hangs below the cell is changed, behind the handles it has. -/
theorem Changes.ptr_same (ho : Owned (R.ptr view) m p)
    (hc : Changes R m (m.read view p) m' (m.read view p) v) :
    Changes (R.ptr view) m p m' p v := by
  obtain ⟨-, hnot⟩ := ho.of_ptr
  have hp : p < m.next := ho.wf.1
  have hread : m'.read view p = m.read view p := read_congr view (hc.touches.frame p hp hnot)
  have hnot' : p ∉ R.foot m' (m'.read view p) := by
    rw [hread]
    intro hmem
    rcases hc.within p hmem with hold | hnew
    · exact hnot hold
    · omega
  refine ⟨hc.touches.mono fun _ ha => List.mem_cons_of_mem _ ha,
    Owned.ptr (Nat.lt_of_lt_of_le hp hc.touches.next) (by rw [hread]; exact hc.owned) hnot',
    ?_, fun a ha => ?_⟩
  · show R.val m' (m'.read view p) = v
    rw [hread, hc.val]
  · have ha' : a ∈ p :: R.foot m' (m'.read view p) := ha
    rw [hread] at ha'
    rcases List.mem_cons.mp ha' with rfl | ha'
    · exact .inl List.mem_cons_self
    · exact (hc.within a ha').imp_left (List.mem_cons_of_mem _)

/-- The contents are changed, and the cell then written. -/
theorem Changes.ptr (ho : Owned (R.ptr view) m p)
    (hc : Changes R m (m.read view p) m' h' v) :
    Changes (R.ptr view) m p (m'.write view p h') p v := by
  obtain ⟨hoR, hnot⟩ := ho.of_ptr
  have hp : p < m.next := ho.wf.1
  have hnot' : p ∉ R.foot m' h' := by
    intro hmem
    rcases hc.within p hmem with hold | hnew
    · exact hnot hold
    · omega
  have hwrite := write_touches m' view p h'
  obtain ⟨ho', hval, hfoot⟩ := hc.owned.frame hwrite fun a ha hmem => by
    rw [List.mem_singleton] at hmem
    exact hnot' (hmem ▸ ha)
  have hfoot' : (R.ptr view).foot (m'.write view p h') p = p :: R.foot m' h' := by
    show p :: R.foot _ ((m'.write view p h').read view p) = _
    rw [read_write_same, hfoot]
  refine ⟨?_, ⟨?_, ?_, ?_⟩, ?_, ?_⟩
  · refine (hc.touches.mono fun _ ha => List.mem_cons_of_mem _ ha).trans hwrite fun a ha => ?_
    rw [List.mem_singleton] at ha
    exact .inl (ha ▸ List.mem_cons_self)
  · refine ⟨Nat.lt_of_lt_of_le hp hc.touches.next, ?_⟩
    rw [read_write_same]
    exact ho'.wf
  · rw [hfoot', List.nodup_cons]
    exact ⟨hnot', hc.owned.nodup⟩
  · rw [hfoot']
    intro a ha
    rcases List.mem_cons.mp ha with rfl | ha
    · exact Nat.lt_of_lt_of_le hp hc.touches.next
    · exact hc.owned.below a ha
  · show R.val _ ((m'.write view p h').read view p) = v
    rw [read_write_same, hval, hc.val]
  · rw [hfoot']
    intro a ha
    rcases List.mem_cons.mp ha with rfl | ha
    · exact .inl List.mem_cons_self
    · exact (hc.within a ha).imp_left (List.mem_cons_of_mem _)

/-- The contents are made, and then the cell. -/
theorem Fresh.ptr (hf : Fresh R m m' h v) :
    Fresh (R.ptr view) m (m'.alloc view h).1 (m'.alloc view h).2 v := by
  have halloc := alloc_touches m' view h
  obtain ⟨ho, hval, hfoot⟩ := hf.owned.frame halloc fun _ _ hmem => (nomatch hmem)
  have hfoot' : (R.ptr view).foot (m'.alloc view h).1 m'.next = m'.next :: R.foot m' h := by
    show m'.next :: R.foot _ ((m'.alloc view h).1.read view m'.next) = _
    rw [read_alloc_same, hfoot]
  refine ⟨hf.touches.trans halloc fun _ hmem => (nomatch hmem), ⟨⟨Nat.lt_succ_self _, ?_⟩, ?_, ?_⟩,
    ?_, ?_⟩
  · show R.wf _ ((m'.alloc view h).1.read view m'.next)
    rw [read_alloc_same]
    exact ho.wf
  · show ((R.ptr view).foot (m'.alloc view h).1 m'.next).Nodup
    rw [hfoot', List.nodup_cons]
    exact ⟨fun hmem => Nat.lt_irrefl _ (hf.owned.below _ hmem), hf.owned.nodup⟩
  · show ∀ a ∈ (R.ptr view).foot (m'.alloc view h).1 m'.next, a < m'.next + 1
    rw [hfoot']
    intro a ha
    rcases List.mem_cons.mp ha with rfl | ha
    · exact Nat.lt_succ_self _
    · exact Nat.lt_succ_of_lt (hf.owned.below a ha)
  · show R.val _ ((m'.alloc view h).1.read view m'.next) = v
    rw [read_alloc_same, hval, hf.val]
  · show ∀ a ∈ (R.ptr view).foot (m'.alloc view h).1 m'.next, m.next ≤ a
    rw [hfoot']
    intro a ha
    rcases List.mem_cons.mp ha with rfl | ha
    · exact hf.touches.next
    · exact hf.new a ha

end Ptr

/-! ## Slices of data -/

/-- A slice whose elements hold no pointers. -/
def Shape.data (view : View C (List α)) : Shape C (Slice α) (List α) where
  val m s := m.elems view s
  foot _ s := [s.arr]
  wf m s := m.Fits view s
  congr hle hwf hsame := by
    have hread := read_congr view (hsame _ List.mem_cons_self)
    unfold Fits elems at *
    rw [hread]
    exact ⟨rfl, rfl, Nat.lt_of_lt_of_le hwf.1 hle, hwf.2⟩

section Data

variable {view : View C (List α)} {s s' : Slice α} {xs : List α}

theorem data_owned (h : m.Fits view s) : Owned (Shape.data view) m s :=
  ⟨h, List.nodup_singleton _, fun a ha => by rw [List.mem_singleton.mp ha]; exact h.1⟩

theorem Leaves.changes (h : Leaves view m s m' s' xs) :
    Changes (Shape.data view) m s m' s' xs where
  touches := h.touches
  owned := data_owned h.fits
  val := h.elems
  within a ha := by
    rw [List.mem_singleton.mp ha]
    exact h.arr.imp_left fun heq => by rw [heq]; exact List.mem_cons_self

theorem fresh_newSlice [Inhabited α] (m : Memory C) (view : View C (List α)) (spare : Nat)
    (xs : List α) :
    Fresh (Shape.data view) m (m.newSlice view spare xs).1 (m.newSlice view spare xs).2 xs := by
  obtain ⟨htouches, hfits, helems, harr⟩ := newSlice_spec m view spare xs
  refine ⟨htouches, data_owned hfits, helems, fun a ha => ?_⟩
  rw [List.mem_singleton.mp ha]
  exact Nat.le_of_eq harr.symm

end Data

/-! ## Slices of objects -/

/-- A list of objects, apart from each other. -/
def Shape.list (R : Shape C ι V) : Shape C (List ι) (List V) where
  val m hs := hs.map (R.val m)
  foot m hs := hs.flatMap (R.foot m)
  wf m hs := ∀ h ∈ hs, R.wf m h
  congr {m m'} hs hle hwf hsame := by
    have hone : ∀ h ∈ hs, R.val m' h = R.val m h ∧ R.foot m' h = R.foot m h ∧ R.wf m' h :=
      fun h hh => R.congr hle (hwf h hh) fun a ha =>
        hsame a (List.mem_flatMap.mpr ⟨h, hh, ha⟩)
    exact ⟨List.map_congr_left fun h hh => (hone h hh).1,
      List.flatMap_congr fun h hh => (hone h hh).2.1, fun h hh => (hone h hh).2.2⟩

section ListShape

variable {hs hs' : List ι} {vs : List V}

/-- The first of a list and the others are like the two parts of a pair. -/
theorem list_owned_cons : Owned R.list m (h :: hs) ↔ Owned (R.pair R.list) m (h, hs) := by
  constructor
  · intro ho
    exact ⟨⟨ho.wf h List.mem_cons_self, fun x hx => ho.wf x (List.mem_cons_of_mem _ hx)⟩,
      ho.nodup, ho.below⟩
  · intro ho
    refine ⟨fun x hx => ?_, ho.nodup, ho.below⟩
    rcases List.mem_cons.mp hx with rfl | hx
    · exact ho.wf.1
    · exact ho.wf.2 x hx

theorem list_changes_cons (hc : Changes (R.pair R.list) m (h, hs) m' (h', hs') (v, vs)) :
    Changes R.list m (h :: hs) m' (h' :: hs') (v :: vs) where
  touches := hc.touches
  owned := list_owned_cons.mpr hc.owned
  val := by
    have hval := Prod.ext_iff.mp hc.val
    exact congrArg₂ List.cons hval.1 hval.2
  within := hc.within

theorem list_owned_nil (m : Memory C) : Owned R.list m [] :=
  ⟨fun _ hx => (nomatch hx), List.nodup_nil, fun _ ha => (nomatch ha)⟩

theorem Owned.list_mem (ho : Owned R.list m hs) (hmem : h ∈ hs) : Owned R m h :=
  ⟨ho.wf h hmem, (List.nodup_flatMap.mp ho.nodup).1 h hmem, fun a ha =>
    ho.below a (List.mem_flatMap.mpr ⟨h, hmem, ha⟩)⟩

/-- One of the objects is changed. -/
theorem Owned.list_set (i : Nat) :
    ∀ {hs : List ι} {h : ι}, Owned R.list m hs → hs[i]? = some h → Changes R m h m' h' v →
      Changes R.list m hs m' (hs.set i h') ((R.list.val m hs).set i v) := by
  induction i with
  | zero =>
    intro hs h ho hget hc
    cases hs with
    | nil => cases hget
    | cons x hs =>
      cases hget
      exact list_changes_cons (hc.pair_left (list_owned_cons.mp ho))
  | succ i ih =>
    intro hs h ho hget hc
    cases hs with
    | nil => cases hget
    | cons x hs =>
      have hpair := list_owned_cons.mp ho
      exact list_changes_cons ((ih hpair.of_pair.2.1 hget hc).pair_right hpair)

/-- An object made is put at the end. -/
theorem Owned.list_append (ho : Owned R.list m hs) (hf : Fresh R m m' h v) :
    Changes R.list m hs m' (hs ++ [h]) (R.list.val m hs ++ [v]) := by
  induction hs with
  | nil =>
    have hpair := hf.owned.pair (list_owned_nil (R := R) m') fun _ ha => (nomatch ha)
    refine ⟨hf.touches, list_owned_cons.mpr hpair, congrArg (· :: []) hf.val, fun a ha => ?_⟩
    rcases List.mem_append.mp ha with ha | ha
    · exact .inr (hf.new a ha)
    · cases ha
  | cons x hs ih =>
    have hpair := list_owned_cons.mp ho
    exact list_changes_cons ((ih hpair.of_pair.2.1).pair_right hpair)

/-- One of the objects is dropped. -/
theorem Owned.list_eraseIdx (ho : Owned R.list m hs) (i : Nat) :
    Changes R.list m hs m (hs.eraseIdx i) ((R.list.val m hs).eraseIdx i) := by
  have hsub : (hs.eraseIdx i).Sublist hs := List.eraseIdx_sublist ..
  have hfoot : (R.list.foot m (hs.eraseIdx i)).Sublist (R.list.foot m hs) := hsub.flatMap _
  refine ⟨Touches.refl m _, ⟨fun x hx => ho.wf x (hsub.subset hx), hfoot.nodup ho.nodup,
    fun a ha => ho.below a (hfoot.subset ha)⟩, ?_, fun a ha => .inl (hfoot.subset ha)⟩
  show (hs.eraseIdx i).map (R.val m) = (hs.map (R.val m)).eraseIdx i
  exact (List.eraseIdx_map ..).symm

/-- An object apart from those of a list takes the place of one of them. -/
theorem Owned.list_put (i : Nat) :
    ∀ {hs : List ι}, Owned (R.pair R.list) m (h, hs) →
      Owned R.list m (hs.set i h) ∧
        ∀ a ∈ R.list.foot m (hs.set i h), a ∈ (R.pair R.list).foot m (h, hs) := by
  induction i with
  | zero =>
    intro hs ho
    cases hs with
    | nil => exact ⟨list_owned_nil m, fun _ ha => (nomatch ha)⟩
    | cons x hs =>
      obtain ⟨hoh, hol, hdisj⟩ := ho.of_pair
      have hrest := (list_owned_cons.mp hol).of_pair.2.1
      refine ⟨list_owned_cons.mpr (hoh.pair hrest fun a ha => hdisj a ?_), fun a ha => ?_⟩
      · exact List.mem_append_right _ ha
      · rcases List.mem_append.mp ha with ha | ha
        · exact List.mem_append_left _ ha
        · exact List.mem_append_right _ (List.mem_append_right _ ha)
  | succ i ih =>
    intro hs ho
    cases hs with
    | nil => exact ⟨list_owned_nil m, fun _ ha => (nomatch ha)⟩
    | cons x hs =>
      obtain ⟨hoh, hol, hdisj⟩ := ho.of_pair
      obtain ⟨hox, hrest, hdisj'⟩ := (list_owned_cons.mp hol).of_pair
      obtain ⟨hset, hsub⟩ := ih (hoh.pair hrest fun a ha =>
        hdisj a (List.mem_append_right _ ha))
      refine ⟨list_owned_cons.mpr (hox.pair hset fun a ha hx => ?_), fun a ha => ?_⟩
      · rcases List.mem_append.mp (hsub a ha) with ha | ha
        · exact hdisj a (List.mem_append_left _ hx) ha
        · exact hdisj' a ha hx
      · rcases List.mem_append.mp ha with ha | ha
        · exact List.mem_append_right _ (List.mem_append_left _ ha)
        · rcases List.mem_append.mp (hsub a ha) with ha | ha
          · exact List.mem_append_left _ ha
          · exact List.mem_append_right _ (List.mem_append_right _ ha)

end ListShape

/-- A slice of handles, and what hangs below each of them. -/
def Shape.each (view : View C (List ι)) (R : Shape C ι V) : Shape C (Slice ι) (List V) where
  val m s := R.list.val m (m.elems view s)
  foot m s := s.arr :: R.list.foot m (m.elems view s)
  wf m s := m.Fits view s ∧ R.list.wf m (m.elems view s)
  congr {m m'} s hle hwf hsame := by
    have hread := read_congr view (hsame _ List.mem_cons_self)
    have helems : m'.elems view s = m.elems view s := by
      unfold elems
      rw [hread]
    obtain ⟨hval, hfoot, hwf'⟩ := R.list.congr hle hwf.2 fun a ha =>
      hsame a (List.mem_cons_of_mem _ ha)
    rw [helems]
    refine ⟨hval, by rw [hfoot], ⟨Nat.lt_of_lt_of_le hwf.1.1 hle, ?_⟩, hwf'⟩
    rw [hread]
    exact hwf.1.2

section Each

variable {view : View C (List ι)} {s s' : Slice ι} {vs : List V} {hs : List ι}

theorem Owned.of_each (ho : Owned (Shape.each view R) m s) :
    Owned R.list m (m.elems view s) ∧ s.arr ∉ R.list.foot m (m.elems view s) := by
  obtain ⟨hnot, hnodup⟩ := List.nodup_cons.mp ho.nodup
  exact ⟨⟨ho.wf.2, hnodup, fun a ha => ho.below a (List.mem_cons_of_mem _ ha)⟩, hnot⟩

/-- Objects behind handles in the slice's array, with the array apart from them. -/
theorem each_owned (hfits : m.Fits view s) (ho : Owned R.list m (m.elems view s))
    (hnot : s.arr ∉ R.list.foot m (m.elems view s)) : Owned (Shape.each view R) m s :=
  ⟨⟨hfits, ho.wf⟩, List.nodup_cons.mpr ⟨hnot, ho.nodup⟩, fun a ha => by
    rcases List.mem_cons.mp ha with rfl | ha
    · exact hfits.1
    · exact ho.below a ha⟩

/-- The objects are changed to ones behind the handles `hs`, and the array then comes to
hold those. -/
theorem Changes.each_edit (ho : Owned (Shape.each view R) m s)
    (hc : Changes R.list m (m.elems view s) m' hs vs) (hl : Leaves view m' s m'' s' hs) :
    Changes (Shape.each view R) m s m'' s' vs := by
  obtain ⟨-, hnot⟩ := ho.of_each
  have harr : s.arr < m.next := ho.wf.1.1
  have hnot' : s.arr ∉ R.list.foot m' hs := by
    intro hmem
    rcases hc.within _ hmem with hold | hnew
    · exact hnot hold
    · omega
  obtain ⟨ho', hval, hfoot⟩ := hc.owned.frame hl.touches fun a ha hmem => by
    rw [List.mem_singleton] at hmem
    exact hnot' (hmem ▸ ha)
  have hnew : s'.arr ∉ R.list.foot m'' hs := by
    rw [hfoot]
    rcases hl.arr with heq | hge
    · rwa [heq]
    · intro hmem
      have := hc.owned.below _ hmem
      omega
  have hfoot' : (Shape.each view R).foot m'' s' = s'.arr :: R.list.foot m' hs := by
    show s'.arr :: R.list.foot m'' (m''.elems view s') = _
    rw [hl.elems, hfoot]
  refine ⟨?_, each_owned hl.fits (by rw [hl.elems]; exact ho') (by rw [hl.elems]; exact hnew),
    ?_, fun a ha => ?_⟩
  · refine (hc.touches.mono fun _ ha => List.mem_cons_of_mem _ ha).trans hl.touches fun a ha => ?_
    rw [List.mem_singleton] at ha
    exact .inl (ha ▸ List.mem_cons_self)
  · show R.list.val m'' (m''.elems view s') = vs
    rw [hl.elems, hval, hc.val]
  · rw [hfoot'] at ha
    rcases List.mem_cons.mp ha with rfl | ha
    · rcases hl.arr with heq | hge
      · exact .inl (heq ▸ List.mem_cons_self)
      · exact .inr (Nat.le_trans hc.touches.next hge)
    · exact (hc.within a ha).imp_left (List.mem_cons_of_mem _)

/-- An object behind one of the handles is changed where it is. -/
theorem Owned.each_at {p : ι} {v : V} (ho : Owned (Shape.each view R) m s) {i : Nat}
    (hget : (m.elems view s)[i]? = some p) (hc : Changes R m p m' p v) :
    Changes (Shape.each view R) m s m' s (((Shape.each view R).val m s).set i v) := by
  obtain ⟨hlist, hnot⟩ := ho.of_each
  have hset := hlist.list_set i hget hc
  have hsame : (m.elems view s).set i p = m.elems view s := by
    obtain ⟨hi, rfl⟩ := List.getElem?_eq_some_iff.mp hget
    exact List.set_getElem_self hi
  rw [hsame] at hset
  have hread : m'.read view s.arr = m.read view s.arr :=
    read_congr view (hset.touches.frame _ ho.wf.1.1 hnot)
  refine Changes.each_edit ho hset ⟨Touches.refl m' _, ⟨?_, ?_⟩, ?_, .inl rfl⟩
  · exact Nat.lt_of_lt_of_le ho.wf.1.1 hset.touches.next
  · rw [hread]
    exact ho.wf.1.2
  · unfold elems
    rw [hread]

/-- The object behind a handle, if there is one at the place, is changed where it is. -/
theorem Owned.each_modify (ho : Owned (Shape.each view R) m s) (i : Nat) (f : V → V)
    (hnone : (m.elems view s)[i]? = none → m' = m)
    (hsome : ∀ p, (m.elems view s)[i]? = some p → Owned R m p →
      Changes R m p m' p (f (R.val m p))) :
    Changes (Shape.each view R) m s m' s (((Shape.each view R).val m s).modify i f) := by
  have hval : ((Shape.each view R).val m s)[i]? = (m.elems view s)[i]?.map (R.val m) :=
    List.getElem?_map ..
  cases hget : (m.elems view s)[i]? with
  | none =>
    rw [hget, Option.map_none, List.getElem?_eq_none_iff] at hval
    rw [List.modify_eq_self hval, hnone hget]
    exact ho.changes_refl
  | some p =>
    rw [hget, Option.map_some] at hval
    have hset : ((Shape.each view R).val m s).modify i f =
        ((Shape.each view R).val m s).set i (f (R.val m p)) := by
      obtain ⟨hi, hold⟩ := List.getElem?_eq_some_iff.mp hval
      refine List.ext_getElem? fun k => ?_
      rw [List.getElem?_modify, List.getElem?_set]
      by_cases hk : i = k
      · subst hk
        simp [hi, hold]
      · simp [hk]
    rw [hset]
    exact ho.each_at hget
      (hsome p hget (ho.of_each.1.list_mem (List.mem_of_getElem? hget)))

/-- What was made elsewhere since leaves the array as it was. -/
theorem Owned.each_fits {cells : List Nat} (ho : Owned (Shape.each view R) m s)
    (ht : Touches m m' cells) (hout : s.arr ∉ cells) :
    m'.Fits view s ∧ m'.elems view s = m.elems view s := by
  have hread : m'.read view s.arr = m.read view s.arr :=
    read_congr view (ht.frame _ ho.wf.1.1 hout)
  unfold Fits elems
  rw [hread]
  exact ⟨⟨Nat.lt_of_lt_of_le ho.wf.1.1 ht.next, ho.wf.1.2⟩, rfl⟩

/-- An object made is appended. -/
theorem Fresh.each_append [Inhabited ι] {h : ι} {v : V}
    (ho : Owned (Shape.each view R) m s) (hf : Fresh R m m' h v) (spare : Nat) :
    Changes (Shape.each view R) m s (m'.append view spare s h).1 (m'.append view spare s h).2
      ((Shape.each view R).val m s ++ [v]) := by
  obtain ⟨hfits, helems⟩ := ho.each_fits hf.touches fun hmem => (nomatch hmem)
  have hleaves := append_leaves hfits spare h
  rw [helems] at hleaves
  exact Changes.each_edit ho (ho.of_each.1.list_append hf) hleaves

/-- An object apart from those of a slice takes the place of one of them. -/
theorem Owned.each_put {h : ι} (ho : Owned (R.pair (Shape.each view R)) m (h, s)) (i : Nat) :
    Owned (Shape.each view R) (m.setAt view s i h) s ∧
      (Shape.each view R).val (m.setAt view s i h) s =
        ((Shape.each view R).val m s).set i (R.val m h) ∧
      ∀ a ∈ (Shape.each view R).foot (m.setAt view s i h) s,
        a ∈ (R.pair (Shape.each view R)).foot m (h, s) := by
  obtain ⟨hoh, hos, hdisj⟩ := ho.of_pair
  obtain ⟨hlist, hnot⟩ := hos.of_each
  obtain ⟨hput, hsub⟩ := (hoh.pair hlist fun a ha => hdisj a (List.mem_cons_of_mem _ ha)).list_put i
  have hleaves := setAt_leaves hos.wf.1 i h
  have harr : s.arr ∉ R.list.foot m ((m.elems view s).set i h) := by
    intro hmem
    rcases List.mem_append.mp (hsub _ hmem) with ha | ha
    · exact hdisj _ List.mem_cons_self ha
    · exact hnot ha
  obtain ⟨hput', hval, hfoot⟩ := hput.frame hleaves.touches fun a ha hmem => by
    rw [List.mem_singleton] at hmem
    exact harr (hmem ▸ ha)
  refine ⟨each_owned hleaves.fits (by rw [hleaves.elems]; exact hput')
    (by rw [hleaves.elems, hfoot]; exact harr), ?_, fun a ha => ?_⟩
  · show R.list.val _ (elems _ view s) = _
    rw [hleaves.elems, hval]
    exact List.map_set ..
  · have ha' : a ∈ s.arr :: R.list.foot (m.setAt view s i h) (elems _ view s) := ha
    rw [hleaves.elems, hfoot] at ha'
    rcases List.mem_cons.mp ha' with rfl | ha'
    · exact List.mem_append_right _ List.mem_cons_self
    · rcases List.mem_append.mp (hsub a ha') with ha | ha
      · exact List.mem_append_left _ ha
      · exact List.mem_append_right _ (List.mem_cons_of_mem _ ha)

/-- One of the objects is taken out. -/
theorem Owned.each_removeAt (ho : Owned (Shape.each view R) m s) (i : Nat) :
    Changes (Shape.each view R) m s (m.removeAt view s i).1 (m.removeAt view s i).2
      (((Shape.each view R).val m s).eraseIdx i) :=
  Changes.each_edit ho (ho.of_each.1.list_eraseIdx i) (removeAt_leaves ho.wf.1 i)

variable (view) in
/-- A slice of objects made: the objects, and then the array of their handles. -/
theorem Fresh.each [Inhabited ι] (hf : Fresh R.list m m' hs vs) (spare : Nat) :
    Fresh (Shape.each view R) m (m'.newSlice view spare hs).1 (m'.newSlice view spare hs).2
      vs := by
  obtain ⟨htouches, hfits, helems, harr⟩ := newSlice_spec m' view spare hs
  obtain ⟨ho, hval, hfoot⟩ := hf.owned.frame htouches fun _ _ hmem => (nomatch hmem)
  have hnot : m'.next ∉ R.list.foot m' hs := fun hmem =>
    Nat.lt_irrefl _ (hf.owned.below _ hmem)
  refine ⟨hf.touches.trans htouches fun _ hmem => (nomatch hmem),
    each_owned hfits (by rw [helems]; exact ho) (by rw [helems, harr, hfoot]; exact hnot), ?_,
    fun a ha => ?_⟩
  · show R.list.val _ (elems _ view _) = vs
    rw [helems, hval, hf.val]
  · have ha' : a ∈ (m'.newSlice view spare hs).2.arr ::
        R.list.foot (m'.newSlice view spare hs).1 (elems _ view _) := ha
    rw [helems, hfoot, harr] at ha'
    rcases List.mem_cons.mp ha' with rfl | ha'
    · exact hf.touches.next
    · exact hf.new a ha'

end Each

/-! ## Making a list of objects -/

/-- Makes the objects of a list one after another. -/
def mapFresh (f : Memory C → κ → Memory C × ι) : Memory C → List κ → Memory C × List ι
  | m, [] => (m, [])
  | m, k :: ks =>
    let (m, h) := f m k
    let (m, hs) := mapFresh f m ks
    (m, h :: hs)

/-- If each is made fresh wherever only fresh cells were written before, so is the list. -/
theorem fresh_mapFresh {f : Memory C → κ → Memory C × ι} {g : κ → V} :
    ∀ {ks : List κ} {m : Memory C},
      (∀ k ∈ ks, ∀ m', Touches m m' [] → Fresh R m' (f m' k).1 (f m' k).2 (g k)) →
      Fresh R.list m (mapFresh f m ks).1 (mapFresh f m ks).2 (ks.map g) := by
  intro ks
  induction ks with
  | nil => exact fun _ => ⟨Touches.refl _ _, list_owned_nil _, rfl, fun _ ha => (nomatch ha)⟩
  | cons k ks ih =>
    intro m hf
    have hone := hf k List.mem_cons_self m (Touches.refl m _)
    have hrest := ih fun x hx m' ht => hf x (List.mem_cons_of_mem _ hx) m'
      (hone.touches.trans ht fun _ hmem => (nomatch hmem))
    have hpair := hone.pair hrest
    exact ⟨hpair.touches, list_owned_cons.mpr hpair.owned,
      congrArg₂ List.cons (Prod.ext_iff.mp hpair.val).1 (Prod.ext_iff.mp hpair.val).2,
      hpair.new⟩

/-! ## Copies -/

/-- What was made elsewhere since leaves an object as it was. -/
theorem Owned.later {h : ι} (ho : Owned R m h) (ht : Touches m m' []) :
    Owned R m' h ∧ R.val m' h = R.val m h := by
  obtain ⟨ho', hval, -⟩ := ho.frame ht fun _ _ hmem => (nomatch hmem)
  exact ⟨ho', hval⟩

/-- The elements of a slice of data, in a new array. -/
theorem Owned.fresh_copy [Inhabited α] {view : View C (List α)} {s : Slice α}
    (ho : Owned (Shape.data view) m s) (ht : Touches m m' []) (spare : Nat) :
    Fresh (Shape.data view) m' (m'.newSlice view spare (m'.elems view s)).1
      (m'.newSlice view spare (m'.elems view s)).2 ((Shape.data view).val m s) := by
  have helems : m'.elems view s = (Shape.data view).val m s := (ho.later ht).2
  rw [helems]
  exact fresh_newSlice m' view _ _

/-- The objects of a slice copied one after another, into a new slice. -/
theorem Owned.fresh_copyEach [Inhabited ι] {view : View C (List ι)}
    {copy : Memory C → ι → Memory C × ι}
    (hcopy : ∀ {m h}, Owned R m h → Fresh R m (copy m h).1 (copy m h).2 (R.val m h))
    {s : Slice ι} (ho : Owned (Shape.each view R) m s) (ht : Touches m m' []) :
    Fresh (Shape.each view R) m'
      ((mapFresh copy m' (m'.elems view s)).1.newSlice view 0
        (mapFresh copy m' (m'.elems view s)).2).1
      ((mapFresh copy m' (m'.elems view s)).1.newSlice view 0
        (mapFresh copy m' (m'.elems view s)).2).2
      ((Shape.each view R).val m s) := by
  obtain ⟨-, helems⟩ := ho.each_fits ht fun hmem => (nomatch hmem)
  rw [helems]
  refine Fresh.each view (fresh_mapFresh fun h hh m'' ht' => ?_) 0
  obtain ⟨ho', hval⟩ := (ho.of_each.1.list_mem hh).later
    (ht.trans ht' fun _ hmem => (nomatch hmem))
  rw [← hval]
  exact hcopy ho'

/-- The objects of a list made one after another, into a new slice. -/
theorem fresh_makeEach [Inhabited ι] (view : View C (List ι)) {make : Memory C → V → Memory C × ι}
    (hmake : ∀ {m} v, Fresh R m (make m v).1 (make m v).2 v) (spare : Nat → Nat)
    (vs : List V) :
    Fresh (Shape.each view R) m
      ((mapFresh make m vs).1.newSlice view (spare (mapFresh make m vs).2.length)
        (mapFresh make m vs).2).1
      ((mapFresh make m vs).1.newSlice view (spare (mapFresh make m vs).2.length)
        (mapFresh make m vs).2).2 vs := by
  have hlist := fresh_mapFresh (g := fun v => v) (m := m) fun v (_ : v ∈ vs) m' _ =>
    hmake (m := m') v
  rw [List.map_id'] at hlist
  exact hlist.each view _

/-- A slice without objects. -/
theorem fresh_nothing [Inhabited ι] (R : Shape C ι V) (view : View C (List ι)) :
    Fresh (Shape.each view R) m (m.newSlice view 0 []).1 (m.newSlice view 0 []).2 [] :=
  Fresh.each view ⟨Touches.refl m [], list_owned_nil m, rfl, fun _ ha => (nomatch ha)⟩ 0

end Memory

end Lib
