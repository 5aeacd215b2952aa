import Mathlib.Data.List.Basic
import Mathlib.Data.List.Nodup

/-!
# Memory with slices

A memory is a supply of addresses and a cell at each; a `View` reads one kind of cell. A
slice is a length over an array cell, whose list is as long as the slice's capacity.
Appending writes in place while there is room; removing and filtering shift in place.

`Touches` bounds what a program may have written, and `Leaves` is what each operation on a
slice comes to: the new elements, with nothing written but the slice's own array.
-/

namespace Lib

/-- Addresses from `next` on have not been handed out. -/
structure Memory (C : Type) where
  next : Nat
  cell : Nat → C

/-- One kind of cell. -/
structure View (C β : Type) where
  get : C → β
  put : β → C
  get_put : ∀ b, get (put b) = b

/-- The first `len` cells of an array. -/
structure Slice (α : Type) where
  arr : Nat
  len : Nat

instance {α : Type} : Inhabited (Slice α) := ⟨{ arr := 0, len := 0 }⟩

namespace Memory

variable {C β α : Type}

def read (m : Memory C) (v : View C β) (a : Nat) : β := v.get (m.cell a)

def write (m : Memory C) (v : View C β) (a : Nat) (b : β) : Memory C :=
  { m with cell := fun i => if i = a then v.put b else m.cell i }

def alloc (m : Memory C) (v : View C β) (b : β) : Memory C × Nat :=
  ({ next := m.next + 1, cell := fun i => if i = m.next then v.put b else m.cell i }, m.next)

/-- The elements of a slice. -/
def elems (m : Memory C) (v : View C (List α)) (s : Slice α) : List α :=
  (m.read v s.arr).take s.len

section Slices

variable [Inhabited α]

/-- A new array of the elements, with room to spare. -/
def newSlice (m : Memory C) (v : View C (List α)) (spare : Nat) (xs : List α) :
    Memory C × Slice α :=
  let (m, a) := m.alloc v (xs ++ List.replicate spare default)
  (m, { arr := a, len := xs.length })

/-- `append(s, x)`: in place when the array has room, else in a new array. -/
def append (m : Memory C) (v : View C (List α)) (spare : Nat) (s : Slice α) (x : α) :
    Memory C × Slice α :=
  let l := m.read v s.arr
  if s.len < l.length then (m.write v s.arr (l.set s.len x), { s with len := s.len + 1 })
  else m.newSlice v spare (l.take s.len ++ [x])

/-- `append(s[:i], s[i+1:]...)`: what follows is shifted down in place. -/
def removeAt (m : Memory C) (v : View C (List α)) (s : Slice α) (i : Nat) :
    Memory C × Slice α :=
  if s.len ≤ i then (m, s)
  else
    let l := m.read v s.arr
    (m.write v s.arr (l.take i ++ (l.take s.len).drop (i + 1) ++ l.drop (s.len - 1)),
      { s with len := s.len - 1 })

/-- `s[i] = x`. -/
def setAt (m : Memory C) (v : View C (List α)) (s : Slice α) (i : Nat) (x : α) : Memory C :=
  m.write v s.arr ((m.read v s.arr).set i x)

/-- The loop `kept := s[:0]; for e in s { if keep e { kept = append(kept, e) } }`: of the
`n` elements from `i` on, those to keep are written from `k` on. -/
def compact (keep : α → Bool) : Nat → Nat → Nat → List α → List α × Nat
  | 0, _, k, l => (l, k)
  | n + 1, i, k, l =>
    let e := l.getD i default
    if keep e then compact keep n (i + 1) (k + 1) (l.set k e) else compact keep n (i + 1) k l

/-- Filtering a slice in place. -/
def filter (m : Memory C) (v : View C (List α)) (s : Slice α) (keep : α → Bool) :
    Memory C × Slice α :=
  let (l, k) := compact keep s.len 0 0 (m.read v s.arr)
  (m.write v s.arr l, { s with len := k })

end Slices

/-! ## Frames -/

/-- Of the cells there were, only those listed may have changed. -/
structure Touches (m m' : Memory C) (cells : List Nat) : Prop where
  next : m.next ≤ m'.next
  frame : ∀ a, a < m.next → a ∉ cells → m'.cell a = m.cell a

theorem Touches.refl (m : Memory C) (cells : List Nat) : Touches m m cells :=
  ⟨Nat.le_refl _, fun _ _ _ => rfl⟩

theorem Touches.trans {m m' m'' : Memory C} {cells cells' : List Nat}
    (h₁ : Touches m m' cells) (h₂ : Touches m' m'' cells')
    (hsub : ∀ a ∈ cells', a ∈ cells ∨ m.next ≤ a) : Touches m m'' cells where
  next := Nat.le_trans h₁.next h₂.next
  frame a ha hout := by
    have hout' : a ∉ cells' := by
      intro hmem
      rcases hsub a hmem with h | h
      · exact hout h
      · omega
    rw [h₂.frame a (Nat.lt_of_lt_of_le ha h₁.next) hout', h₁.frame a ha hout]

theorem Touches.mono {m m' : Memory C} {cells cells' : List Nat} (h : Touches m m' cells)
    (hsub : ∀ a ∈ cells, a ∈ cells') : Touches m m' cells' where
  next := h.next
  frame a ha hout := h.frame a ha fun hmem => hout (hsub a hmem)

theorem read_congr {m m' : Memory C} {a : Nat} (v : View C β) (h : m'.cell a = m.cell a) :
    m'.read v a = m.read v a := by
  unfold read
  rw [h]

@[simp] theorem read_write_same (m : Memory C) (v : View C β) (a : Nat) (b : β) :
    (m.write v a b).read v a = b := by
  unfold read write
  simp [v.get_put]

theorem write_cell_other (m : Memory C) (v : View C β) {a a' : Nat} (b : β) (h : a' ≠ a) :
    (m.write v a b).cell a' = m.cell a' := if_neg h

theorem write_touches (m : Memory C) (v : View C β) (a : Nat) (b : β) :
    Touches m (m.write v a b) [a] where
  next := Nat.le_refl _
  frame a' _ hout := write_cell_other m v b fun h => hout (by rw [h]; exact List.mem_cons_self)

@[simp] theorem read_alloc_same (m : Memory C) (v : View C β) (b : β) :
    (m.alloc v b).1.read v m.next = b := by
  unfold read alloc
  simp [v.get_put]

theorem alloc_touches (m : Memory C) (v : View C β) (b : β) :
    Touches m (m.alloc v b).1 [] where
  next := Nat.le_succ _
  frame a ha _ := if_neg (by omega)

/-! ## Slices -/

/-- The slice lies within its array. -/
def Fits (m : Memory C) (v : View C (List α)) (s : Slice α) : Prop :=
  s.arr < m.next ∧ s.len ≤ (m.read v s.arr).length

/-- What a program leaves of a slice: the elements `xs`, in its array or in a new one. -/
structure Leaves (v : View C (List α)) (m : Memory C) (s : Slice α) (m' : Memory C)
    (s' : Slice α) (xs : List α) : Prop where
  touches : Touches m m' [s.arr]
  fits : m'.Fits v s'
  elems : m'.elems v s' = xs
  arr : s'.arr = s.arr ∨ m.next ≤ s'.arr

/-- Writing the array of a slice. -/
theorem leaves_write {v : View C (List α)} {m : Memory C} {s : Slice α} (h : m.Fits v s)
    {l : List α} {n : Nat} (hn : n ≤ l.length) :
    Leaves v m s (m.write v s.arr l) { s with len := n } (l.take n) where
  touches := write_touches m v s.arr l
  fits := ⟨h.1, by rw [read_write_same]; exact hn⟩
  elems := by
    unfold elems
    rw [read_write_same]
  arr := .inl rfl

section Slices

variable [Inhabited α] {v : View C (List α)} {m : Memory C} {s : Slice α}

theorem newSlice_spec (m : Memory C) (v : View C (List α)) (spare : Nat) (xs : List α) :
    Touches m (m.newSlice v spare xs).1 [] ∧
      (m.newSlice v spare xs).1.Fits v (m.newSlice v spare xs).2 ∧
      (m.newSlice v spare xs).1.elems v (m.newSlice v spare xs).2 = xs ∧
      (m.newSlice v spare xs).2.arr = m.next := by
  have hread : (m.newSlice v spare xs).1.read v m.next =
      xs ++ List.replicate spare default := read_alloc_same m v _
  refine ⟨alloc_touches m v _, ⟨Nat.lt_succ_self _, ?_⟩, ?_, rfl⟩
  · show xs.length ≤ ((m.newSlice v spare xs).1.read v m.next).length
    rw [hread, List.length_append]
    omega
  · show ((m.newSlice v spare xs).1.read v m.next).take xs.length = xs
    rw [hread, List.take_left]

theorem append_leaves (h : m.Fits v s) (spare : Nat) (x : α) :
    Leaves v m s (m.append v spare s x).1 (m.append v spare s x).2 (m.elems v s ++ [x]) := by
  unfold append
  dsimp only
  split
  · next hroom =>
    have hleaves := leaves_write h (l := (m.read v s.arr).set s.len x) (n := s.len + 1)
      (by rw [List.length_set]; omega)
    have htake : ((m.read v s.arr).set s.len x).take (s.len + 1) = m.elems v s ++ [x] := by
      unfold elems
      rw [List.take_succ_eq_append_getElem (by rw [List.length_set]; exact hroom),
        List.getElem_set_self, List.take_set_of_le (Nat.le_refl _)]
    rwa [htake] at hleaves
  · obtain ⟨htouches, hfits, helems, harr⟩ :=
      newSlice_spec m v spare ((m.read v s.arr).take s.len ++ [x])
    exact ⟨htouches.mono fun _ hmem => (nomatch hmem), hfits, helems,
      .inr (Nat.le_of_eq harr.symm)⟩

omit [Inhabited α] in
theorem removeAt_leaves (h : m.Fits v s) (i : Nat) :
    Leaves v m s (m.removeAt v s i).1 (m.removeAt v s i).2 ((m.elems v s).eraseIdx i) := by
  obtain ⟨harr, hlen⟩ := h
  unfold removeAt
  dsimp only
  split
  · next hout =>
    refine ⟨Touches.refl _ _, ⟨harr, hlen⟩, ?_, .inl rfl⟩
    rw [List.eraseIdx_of_length_le]
    unfold elems
    rw [List.length_take]
    omega
  · next hin =>
    let l := m.read v s.arr
    have hshift : (l.take i ++ (l.take s.len).drop (i + 1)).length = s.len - 1 := by
      rw [List.length_append, List.length_take, List.length_drop, List.length_take]
      have : s.len ≤ l.length := hlen
      omega
    have htake : (l.take i ++ (l.take s.len).drop (i + 1) ++ l.drop (s.len - 1)).take
        (s.len - 1) = (m.elems v s).eraseIdx i := by
      rw [List.take_left' hshift, List.eraseIdx_eq_take_drop_succ]
      unfold elems
      rw [List.take_take, Nat.min_eq_left (by omega)]
    rw [← htake]
    refine leaves_write ⟨harr, hlen⟩ ?_
    rw [List.length_append, hshift]
    omega

omit [Inhabited α] in
theorem setAt_leaves (h : m.Fits v s) (i : Nat) (x : α) :
    Leaves v m s (m.setAt v s i x) s ((m.elems v s).set i x) := by
  have hleaves := leaves_write h (l := (m.read v s.arr).set i x) (n := s.len)
    (by rw [List.length_set]; exact h.2)
  have htake : ((m.read v s.arr).set i x).take s.len = (m.elems v s).set i x :=
    List.take_set ..
  rwa [htake] at hleaves

/-- The loop keeps what it has written and has yet to read apart: below `k` are the kept
ones of the first `i`, and from `i` on the list is as it was. -/
theorem compact_spec (keep : α → Bool) (n : Nat) :
    ∀ (i k : Nat) (l l₀ : List α), l.length = l₀.length → i + n ≤ l₀.length → k ≤ i →
      l.take k = (l₀.take i).filter keep → l.drop i = l₀.drop i →
      (compact keep n i k l).1.length = l₀.length ∧
        (compact keep n i k l).2 ≤ i + n ∧
        (compact keep n i k l).1.take (compact keep n i k l).2 =
          (l₀.take (i + n)).filter keep := by
  induction n with
  | zero =>
    intro i k l l₀ hlen _ hk htake _
    exact ⟨hlen, hk, htake⟩
  | succ n ih =>
    intro i k l l₀ hlen hin hk htake hdrop
    have hi : i < l₀.length := by omega
    have helem : l.getD i default = l₀[i] := by
      have hget := congrArg (fun xs => xs.getD 0 default) hdrop
      simpa [List.getD_eq_getElem?_getD, List.getElem?_drop, hi] using hget
    have hnext : l.drop (i + 1) = l₀.drop (i + 1) := by
      have := congrArg (List.drop 1) hdrop
      simpa [List.drop_drop] using this
    have hstep : (l₀.take (i + 1)).filter keep =
        (l₀.take i).filter keep ++ if keep l₀[i] then [l₀[i]] else [] := by
      rw [List.take_succ_eq_append_getElem hi, List.filter_append, List.filter_cons]
      simp
    rw [compact, helem, show i + (n + 1) = i + 1 + n by omega]
    split
    · next hkeep =>
      refine ih (i + 1) (k + 1) _ l₀ (by rw [List.length_set]; exact hlen) (by omega)
        (by omega) ?_ ?_
      · rw [List.take_succ_eq_append_getElem (by rw [List.length_set]; omega),
          List.getElem_set_self, List.take_set_of_le (Nat.le_refl _), htake, hstep, if_pos hkeep]
      · rw [List.drop_set_of_lt (by omega)]
        exact hnext
    · next hdropped =>
      refine ih (i + 1) k l l₀ hlen (by omega) (by omega) ?_ hnext
      rw [htake, hstep, if_neg hdropped, List.append_nil]

theorem filter_leaves (h : m.Fits v s) (keep : α → Bool) :
    Leaves v m s (m.filter v s keep).1 (m.filter v s keep).2
      ((m.elems v s).filter keep) := by
  obtain ⟨hlen, hle, htake⟩ := compact_spec keep s.len 0 0 (m.read v s.arr) (m.read v s.arr) rfl
    (by rw [Nat.zero_add]; exact h.2) (Nat.le_refl _) rfl rfl
  rw [Nat.zero_add] at hle htake
  have hleaves := leaves_write h (l := (compact keep s.len 0 0 (m.read v s.arr)).1)
    (n := (compact keep s.len 0 0 (m.read v s.arr)).2)
    (by rw [hlen]; exact Nat.le_trans hle h.2)
  rwa [htake] at hleaves

end Slices

/-! ## Edits of a slice -/

/-- What a program does to the elements of a slice. -/
inductive SliceEdit (α : Type) where
  | append (x : α)
  | removeAt (i : Nat)
  | setAt (i : Nat) (x : α)
  | filter (keep : α → Bool)

/-- The edit of a list. -/
def SliceEdit.apply : SliceEdit α → List α → List α
  | .append x, xs => xs ++ [x]
  | .removeAt i, xs => xs.eraseIdx i
  | .setAt i x, xs => xs.set i x
  | .filter keep, xs => xs.filter keep

/-- The edit of a slice in memory. -/
def SliceEdit.exec [Inhabited α] (v : View C (List α)) (spare : Nat) (m : Memory C)
    (s : Slice α) : SliceEdit α → Memory C × Slice α
  | .append x => m.append v spare s x
  | .removeAt i => m.removeAt v s i
  | .setAt i x => (m.setAt v s i x, s)
  | .filter keep => m.filter v s keep

theorem SliceEdit.exec_leaves [Inhabited α] {v : View C (List α)} {m : Memory C} {s : Slice α}
    (h : m.Fits v s) (spare : Nat) (e : SliceEdit α) :
    Leaves v m s (e.exec v spare m s).1 (e.exec v spare m s).2 (e.apply (m.elems v s)) := by
  cases e with
  | append x => exact append_leaves h spare x
  | removeAt i => exact removeAt_leaves h i
  | setAt i x => exact setAt_leaves h i x
  | filter keep => exact filter_leaves h keep

end Memory

end Lib
