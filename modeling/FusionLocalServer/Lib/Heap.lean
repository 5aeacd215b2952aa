import Mathlib.Order.Basic

/-!
# An array heap whose items know where they are

`container/heap` over a slice of pointers, each with an `index` field that `Swap` and
`Push` keep up to date, so that an item can be removed from the middle. The slice is a
length and its cells; cells from the length on are not part of it. The order is any strict
weak one, given by `less`.

`Valid` is the whole invariant: indexes are right, and no item comes before its parent.
The sifts work on a heap that is in order except around one place (`Hole`), and `Push`,
`Pop` and `Remove` each make one such place and mend it.
-/

namespace Lib

structure Heap (α : Type) where
  len : Nat
  cell : Nat → α
  index : α → Nat

namespace Heap

variable {α : Type}

/-! ## Operations -/

section Operations

variable [DecidableEq α]

/-- `Swap`. -/
def swap (h : Heap α) (i j : Nat) : Heap α :=
  { h with
    cell := fun k => if k = i then h.cell j else if k = j then h.cell i else h.cell k
    index := fun x => if x = h.cell i then j else if x = h.cell j then i else h.index x }

def parent (j : Nat) : Nat := (j - 1) / 2

/-- `up`; the path to the root is no longer than `fuel`. -/
def up (less : α → α → Bool) : Nat → Heap α → Nat → Heap α
  | 0, h, _ => h
  | fuel + 1, h, j =>
    let i := parent j
    if i = j ∨ ¬ less (h.cell j) (h.cell i) then h else up less fuel (h.swap i j) i

/-- The child `down` compares with: the lesser of the two, or the only one. -/
def lesserChild (less : α → α → Bool) (h : Heap α) (i n : Nat) : Nat :=
  let j := 2 * i + 1
  if j + 1 < n ∧ less (h.cell (j + 1)) (h.cell j) then j + 1 else j

/-- `down` among the first `n` cells, and the place it ends at. -/
def down (less : α → α → Bool) (n : Nat) : Nat → Heap α → Nat → Heap α × Nat
  | 0, h, i => (h, i)
  | fuel + 1, h, i =>
    if n ≤ 2 * i + 1 then (h, i)
    else
      let j := lesserChild less h i n
      if ¬ less (h.cell j) (h.cell i) then (h, i) else down less n fuel (h.swap i j) j

/-- `heap.Push`. -/
def push (less : α → α → Bool) (h : Heap α) (x : α) : Heap α :=
  up less h.len
    { len := h.len + 1
      cell := fun k => if k = h.len then x else h.cell k
      index := fun y => if y = x then h.len else h.index y } h.len

/-- `heap.Pop`, less the item it returns, which is the one at the root. -/
def pop (less : α → α → Bool) (h : Heap α) : Heap α :=
  let n := h.len - 1
  { (down less n n (h.swap 0 n) 0).1 with len := n }

/-- `heap.Remove`. -/
def remove (less : α → α → Bool) (h : Heap α) (i : Nat) : Heap α :=
  let n := h.len - 1
  if n = i then { h with len := n }
  else
    let (h', i') := down less n n (h.swap i n) i
    { (if i < i' then h' else up less n h' i) with len := n }

end Operations

/-- The item is in the heap. -/
def Mem (h : Heap α) (x : α) : Prop := ∃ i, i < h.len ∧ h.cell i = x

/-! ## The invariant -/

/-- `less` is a strict weak order. -/
structure StrictWeak (less : α → α → Bool) : Prop where
  asymm : ∀ a b, less a b = true → less b a = false
  negTrans : ∀ a b c, less b a = false → less c b = false → less c a = false

theorem StrictWeak.irrefl {less : α → α → Bool} (hw : StrictWeak less) (a : α) :
    less a a = false := by
  by_contra hcon
  have htrue : less a a = true := by simpa using hcon
  rw [hw.asymm _ _ htrue] at htrue
  cases htrue

/-- Every item of the heap is where its index says. -/
def Indexed (h : Heap α) : Prop := ∀ i, i < h.len → h.index (h.cell i) = i

/-- Among the first `n` cells no item comes before its parent. -/
def Ordered (less : α → α → Bool) (h : Heap α) (n : Nat) : Prop :=
  ∀ k, 0 < k → k < n → less (h.cell k) (h.cell (parent k)) = false

structure Valid (less : α → α → Bool) (h : Heap α) : Prop where
  indexed : h.Indexed
  ordered : Ordered less h h.len

/-- Validity is about the order among the heap's own items. -/
theorem Valid.congr {less less' : α → α → Bool} {h : Heap α} (hv : Valid less h)
    (heq : ∀ x y, h.Mem x → h.Mem y → less' x y = less x y) : Valid less' h where
  indexed := hv.indexed
  ordered k hk hkn := by
    have hp : parent k < h.len := by
      unfold parent
      omega
    rw [heq _ _ ⟨k, hkn, rfl⟩ ⟨parent k, hp, rfl⟩]
    exact hv.ordered k hk hkn

/-- The first `n` cells are in order but for the pairs that touch `i`, and around `i` the
children are not before the parent. -/
structure Hole (less : α → α → Bool) (h : Heap α) (n i : Nat) : Prop where
  apart : ∀ k, 0 < k → k < n → k ≠ i → parent k ≠ i →
    less (h.cell k) (h.cell (parent k)) = false
  around : ∀ c, 0 < c → c < n → parent c = i → 0 < i →
    less (h.cell c) (h.cell (parent i)) = false

/-- What `swap` keeps: the length, the items, their indexes, and the cells outside. -/
structure Keeps (h h' : Heap α) (n : Nat) : Prop where
  len : h'.len = h.len
  mem : ∀ x, h'.Mem x ↔ h.Mem x
  indexed : h.Indexed → h'.Indexed
  beyond : ∀ k, n ≤ k → h'.cell k = h.cell k

theorem Keeps.refl (h : Heap α) (n : Nat) : Keeps h h n :=
  { len := rfl, mem := fun _ => Iff.rfl, indexed := id, beyond := fun _ _ => rfl }

theorem Keeps.trans {h h' h'' : Heap α} {n : Nat} (h₁ : Keeps h h' n) (h₂ : Keeps h' h'' n) :
    Keeps h h'' n where
  len := h₂.len.trans h₁.len
  mem x := (h₂.mem x).trans (h₁.mem x)
  indexed hi := h₂.indexed (h₁.indexed hi)
  beyond k hk := (h₂.beyond k hk).trans (h₁.beyond k hk)

theorem Indexed.inj {h : Heap α} (hix : h.Indexed) {a b : Nat} (ha : a < h.len)
    (hb : b < h.len) (hab : h.cell a = h.cell b) : a = b := by
  rw [← hix a ha, ← hix b hb, hab]

variable [DecidableEq α]

section Swap

variable (h : Heap α) (i j : Nat)

@[simp] theorem swap_len : (h.swap i j).len = h.len := rfl

theorem swap_cell_left : (h.swap i j).cell i = h.cell j := if_pos rfl

theorem swap_cell_right : (h.swap i j).cell j = h.cell i := by
  show (if j = i then h.cell j else if j = j then h.cell i else h.cell j) = _
  split
  · next heq => rw [heq]
  · exact if_pos rfl

theorem swap_cell_other {k : Nat} (hi : k ≠ i) (hj : k ≠ j) :
    (h.swap i j).cell k = h.cell k := by
  show (if k = i then _ else if k = j then _ else _) = _
  rw [if_neg hi, if_neg hj]

end Swap

theorem swap_mem {h : Heap α} {i j : Nat} (hi : i < h.len) (hj : j < h.len) (x : α) :
    (h.swap i j).Mem x ↔ h.Mem x := by
  constructor
  · rintro ⟨k, hk, rfl⟩
    by_cases hki : k = i
    · rw [hki, swap_cell_left]
      exact ⟨j, hj, rfl⟩
    by_cases hkj : k = j
    · rw [hkj, swap_cell_right]
      exact ⟨i, hi, rfl⟩
    · rw [swap_cell_other h i j hki hkj]
      exact ⟨k, hk, rfl⟩
  · rintro ⟨k, hk, rfl⟩
    by_cases hki : k = i
    · exact ⟨j, hj, by rw [swap_cell_right, hki]⟩
    by_cases hkj : k = j
    · exact ⟨i, hi, by rw [swap_cell_left, hkj]⟩
    · exact ⟨k, hk, swap_cell_other h i j hki hkj⟩

theorem swap_indexed {h : Heap α} {i j : Nat} (hi : i < h.len) (hj : j < h.len)
    (hix : h.Indexed) : (h.swap i j).Indexed := by
  intro k hk
  by_cases hki : k = i
  · rw [hki, swap_cell_left]
    show (if h.cell j = h.cell i then j else if h.cell j = h.cell j then i else _) = i
    split
    · next heq => exact hix.inj hj hi heq
    · exact if_pos rfl
  by_cases hkj : k = j
  · rw [hkj, swap_cell_right]
    exact if_pos rfl
  · rw [swap_cell_other h i j hki hkj]
    show (if h.cell k = h.cell i then j else if h.cell k = h.cell j then i else _) = k
    rw [if_neg fun heq => hki (hix.inj hk hi heq), if_neg fun heq => hkj (hix.inj hk hj heq)]
    exact hix k hk

theorem swap_keeps {h : Heap α} {i j n : Nat} (hi : i < n) (hj : j < n) (hn : n ≤ h.len) :
    Keeps h (h.swap i j) n where
  len := rfl
  mem := swap_mem (by omega) (by omega)
  indexed := swap_indexed (by omega) (by omega)
  beyond k hk := swap_cell_other h i j (by omega) (by omega)

/-! ## Sifting up -/

theorem parent_lt {j : Nat} (h : 0 < j) : parent j < j := by
  unfold parent
  omega

theorem parent_eq_self {j : Nat} : parent j = j ↔ j = 0 := by
  unfold parent
  omega

theorem up_keeps (less : α → α → Bool) {n : Nat} (fuel : Nat) :
    ∀ (h : Heap α) (j : Nat), j < n → n ≤ h.len → Keeps h (up less fuel h j) n := by
  induction fuel with
  | zero => exact fun h _ _ _ => Keeps.refl h n
  | succ fuel ih =>
    intro h j hj hn
    rw [up]
    split
    · exact Keeps.refl h n
    · next hgo =>
      have hne : parent j ≠ j := fun heq => hgo (.inl heq)
      have hlt : parent j < j := parent_lt (by rw [ne_eq, parent_eq_self] at hne; omega)
      have hswap : Keeps h (h.swap (parent j) j) n := swap_keeps (by omega) hj hn
      exact hswap.trans (ih _ _ (by omega) hn)

section Order

variable {less : α → α → Bool} (hw : StrictWeak less)
include hw

/-- Sifting up mends a hole whose item is not after its children. -/
theorem up_ordered {n : Nat} (fuel : Nat) :
    ∀ (h : Heap α) (j : Nat), j ≤ fuel → j < n → Hole less h n j →
      (∀ c, 0 < c → c < n → parent c = j → less (h.cell c) (h.cell j) = false) →
      Ordered less (up less fuel h j) n := by
  induction fuel with
  | zero =>
    intro h j hj _ hole hbelow k hk hkn
    obtain rfl : j = 0 := by omega
    by_cases hp : parent k = 0
    · rw [up, hp]
      exact hbelow k hk hkn hp
    · exact hole.apart k hk hkn (by omega) hp
  | succ fuel ih =>
    intro h j hj hjn hole hbelow
    rw [up]
    split
    · next hstop =>
      intro k hk hkn
      by_cases hkj : k = j
      · subst hkj
        rcases hstop with heq | hless
        · exact absurd (parent_eq_self.mp heq) (by omega)
        · simpa using hless
      · by_cases hp : parent k = j
        · rw [hp]
          exact hbelow k hk hkn hp
        · exact hole.apart k hk hkn hkj hp
    · next hgo =>
      have hne : parent j ≠ j := fun heq => hgo (.inl heq)
      have hj0 : 0 < j := by
        rw [ne_eq, parent_eq_self] at hne
        omega
      have hlt : parent j < j := parent_lt hj0
      have hless : less (h.cell j) (h.cell (parent j)) = true := by
        by_contra hcon
        exact hgo (.inr hcon)
      -- the parent's item, moved down to `j`, is not after what lies below it
      have hother : ∀ k, k ≠ parent j → k ≠ j → (h.swap (parent j) j).cell k = h.cell k :=
        fun k h1 h2 => swap_cell_other h _ _ h1 h2
      refine ih _ _ (by omega) (by omega) ⟨?_, ?_⟩ ?_
      · intro k hk hkn hkp hpk
        by_cases hkj : k = j
        · exact absurd (congrArg parent hkj) hpk
        rw [hother k hkp hkj]
        by_cases hpj : parent k = j
        · rw [hpj, swap_cell_right]
          exact hole.around k hk hkn hpj hj0
        · rw [hother _ hpk hpj]
          exact hole.apart k hk hkn hkj hpj
      · intro c hc hcn hpc hp0
        have hpp : parent (parent j) < parent j := parent_lt hp0
        have htop : less (h.cell (parent j)) (h.cell (parent (parent j))) = false :=
          hole.apart _ hp0 (by omega) (by omega) (by omega)
        rw [hother (parent (parent j)) (by omega) (by omega)]
        by_cases hcj : c = j
        · rw [hcj, swap_cell_right]
          exact htop
        · rw [hother c (by have := parent_lt hc; omega) hcj]
          have hsib := hole.apart c hc hcn hcj (by omega)
          rw [hpc] at hsib
          exact hw.negTrans _ _ _ htop hsib
      · intro c hc hcn hpc
        rw [swap_cell_left]
        by_cases hcj : c = j
        · rw [hcj, swap_cell_right]
          exact hw.asymm _ _ hless
        · rw [hother c (by have := parent_lt hc; omega) hcj]
          have hsib := hole.apart c hc hcn hcj (by omega)
          rw [hpc] at hsib
          exact hw.negTrans _ _ _ (hw.asymm _ _ hless) hsib

/-! ## Sifting down -/

omit [DecidableEq α] in
theorem lesserChild_spec (h : Heap α) {i n : Nat} (hn : 2 * i + 1 < n) :
    i < lesserChild less h i n ∧ lesserChild less h i n < n ∧
      parent (lesserChild less h i n) = i ∧
      ∀ c, 0 < c → c < n → parent c = i →
        less (h.cell c) (h.cell (lesserChild less h i n)) = false := by
  have hchild : ∀ c, 0 < c → parent c = i → c = 2 * i + 1 ∨ c = 2 * i + 1 + 1 := by
    intro c hc hp
    unfold parent at hp
    omega
  unfold lesserChild
  dsimp only
  split
  · next hright =>
    refine ⟨by omega, hright.1, by unfold parent; omega, ?_⟩
    intro c hc _ hp
    rcases hchild c hc hp with rfl | rfl
    · exact hw.asymm _ _ hright.2
    · exact hw.irrefl _
  · next hleft =>
    refine ⟨by omega, hn, by unfold parent; omega, ?_⟩
    intro c hc hcn hp
    rcases hchild c hc hp with rfl | rfl
    · exact hw.irrefl _
    · simpa using fun hless => hleft ⟨hcn, hless⟩

/-- Swapping the item of a hole with its lesser child moves the hole there, and the item
is then not before its parent. -/
theorem Hole.sink {h : Heap α} {n i : Nat} (hole : Hole less h n i) (hn : 2 * i + 1 < n)
    (hless : less (h.cell (lesserChild less h i n)) (h.cell i) = true) :
    Hole less (h.swap i (lesserChild less h i n)) n (lesserChild less h i n) ∧
      less ((h.swap i (lesserChild less h i n)).cell (lesserChild less h i n))
        ((h.swap i (lesserChild less h i n)).cell (parent (lesserChild less h i n)))
        = false := by
  obtain ⟨hij, hjn, hpj, hleast⟩ := lesserChild_spec hw h hn
  generalize lesserChild less h i n = j at *
  have hother : ∀ k, k ≠ i → k ≠ j → (h.swap i j).cell k = h.cell k :=
    fun k h1 h2 => swap_cell_other h _ _ h1 h2
  refine ⟨⟨?_, ?_⟩, ?_⟩
  · intro k hk hkn hkj hpk
    by_cases hki : k = i
    · subst hki
      have hlt := parent_lt hk
      rw [swap_cell_left, hother _ (by omega) (by omega)]
      exact hole.around j (by omega) hjn hpj hk
    rw [hother k hki hkj]
    by_cases hpi : parent k = i
    · rw [hpi, swap_cell_left]
      exact hleast k hk hkn hpi
    · rw [hother _ hpi hpk]
      exact hole.apart k hk hkn hki hpi
  · intro c hc hcn hpc _
    have hlt := parent_lt hc
    rw [hpj, swap_cell_left, hother c (by omega) (by omega), ← hpc]
    exact hole.apart c hc hcn (by omega) (by omega)
  · rw [hpj, swap_cell_left, swap_cell_right]
    exact hw.asymm _ _ hless

end Order

section Down

variable {less : α → α → Bool}

theorem down_of_lt {n fuel i : Nat} {h : Heap α} (hn : 2 * i + 1 < n)
    (hless : less (h.cell (lesserChild less h i n)) (h.cell i) = true) :
    down less n (fuel + 1) h i =
      down less n fuel (h.swap i (lesserChild less h i n)) (lesserChild less h i n) := by
  rw [down, if_neg (by omega), if_neg (by simpa using hless)]

variable (less) in
omit [DecidableEq α] in
theorem lesserChild_lt (h : Heap α) {i n : Nat} (hn : 2 * i + 1 < n) :
    i < lesserChild less h i n ∧ lesserChild less h i n < n := by
  unfold lesserChild
  dsimp only
  split <;> omega

theorem down_ge (n fuel : Nat) : ∀ (h : Heap α) (i : Nat), i ≤ (down less n fuel h i).2 := by
  induction fuel with
  | zero => exact fun _ _ => Nat.le_refl _
  | succ fuel ih =>
    intro h i
    rw [down]
    dsimp only
    split
    · exact Nat.le_refl _
    · next hn =>
      split
      · exact Nat.le_refl _
      · have hlt := (lesserChild_lt less h (i := i) (n := n) (by omega)).1
        exact Nat.le_trans (Nat.le_of_lt hlt) (ih _ _)

variable (less) in
theorem down_keeps (n fuel : Nat) :
    ∀ (h : Heap α) (i : Nat), n ≤ h.len → Keeps h (down less n fuel h i).1 n := by
  induction fuel with
  | zero => exact fun h _ _ => Keeps.refl h n
  | succ fuel ih =>
    intro h i hn
    rw [down]
    dsimp only
    split
    · exact Keeps.refl h n
    · split
      · exact Keeps.refl h n
      · have hlt := lesserChild_lt less h (i := i) (n := n) (by omega)
        have hswap : Keeps h (h.swap i (lesserChild less h i n)) n :=
          swap_keeps (by omega) hlt.2 hn
        exact hswap.trans (ih _ _ hn)

end Down

section DownOrder

variable {less : α → α → Bool} (hw : StrictWeak less)
include hw

/-- Sifting down mends a hole whose item is not before its parent. -/
theorem down_ordered {n : Nat} (fuel : Nat) :
    ∀ (h : Heap α) (i : Nat), n ≤ i + fuel → Hole less h n i →
      (0 < i → i < n → less (h.cell i) (h.cell (parent i)) = false) →
      Ordered less (down less n fuel h i).1 n := by
  -- the hole never moves up, so it is in order once no child of it is before it
  have stop : ∀ (h : Heap α) (i : Nat), Hole less h n i →
      (0 < i → i < n → less (h.cell i) (h.cell (parent i)) = false) →
      (∀ c, 0 < c → c < n → parent c = i → less (h.cell c) (h.cell i) = false) →
      Ordered less h n := by
    intro h i hole habove hbelow k hk hkn
    by_cases hki : k = i
    · subst hki
      exact habove hk hkn
    by_cases hp : parent k = i
    · rw [hp]
      exact hbelow k hk hkn hp
    · exact hole.apart k hk hkn hki hp
  induction fuel with
  | zero =>
    intro h i hi hole habove
    refine stop h i hole habove fun c hc hcn hp => ?_
    have := parent_lt hc
    omega
  | succ fuel ih =>
    intro h i hi hole habove
    by_cases hn : n ≤ 2 * i + 1
    · rw [down, if_pos hn]
      refine stop h i hole habove fun c hc hcn hp => ?_
      unfold parent at hp
      omega
    obtain ⟨hij, hjn, -, hleast⟩ := lesserChild_spec hw h (i := i) (n := n) (by omega)
    by_cases hless : less (h.cell (lesserChild less h i n)) (h.cell i) = true
    · rw [down_of_lt (by omega) hless]
      obtain ⟨hole', habove'⟩ := hole.sink hw (by omega) hless
      exact ih _ _ (by omega) hole' fun _ _ => habove'
    · rw [down, if_neg hn]
      simp only [hless, not_false_eq_true, if_true, Bool.false_eq_true]
      refine stop h i hole habove fun c hc hcn hp => ?_
      exact hw.negTrans _ _ _ (by simpa using hless) (hleast c hc hcn hp)

/-- From any hole `down` either moves the item, and then the heap is in order, or leaves
the heap as it is, and then no child of the hole is before its item. -/
theorem down_cases {n fuel i : Nat} {h : Heap α} (hi : n ≤ i + fuel)
    (hole : Hole less h n i) :
    (i < (down less n fuel h i).2 ∧ Ordered less (down less n fuel h i).1 n) ∨
      (down less n fuel h i = (h, i) ∧
        ∀ c, 0 < c → c < n → parent c = i → less (h.cell c) (h.cell i) = false) := by
  by_cases hn : n ≤ 2 * i + 1
  · refine .inr ⟨?_, fun c hc hcn hp => ?_⟩
    · cases fuel with
      | zero => rfl
      | succ fuel => rw [down, if_pos hn]
    · unfold parent at hp
      omega
  cases fuel with
  | zero => omega
  | succ fuel =>
    obtain ⟨hij, hjn, -, hleast⟩ := lesserChild_spec hw h (i := i) (n := n) (by omega)
    by_cases hless : less (h.cell (lesserChild less h i n)) (h.cell i) = true
    · obtain ⟨hole', habove'⟩ := hole.sink hw (by omega) hless
      rw [down_of_lt (by omega) hless]
      refine .inl ⟨?_, down_ordered hw _ _ _ (by omega) hole' fun _ _ => habove'⟩
      exact Nat.lt_of_lt_of_le hij (down_ge _ _ _ _)
    · refine .inr ⟨?_, fun c hc hcn hp => ?_⟩
      · rw [down, if_neg hn]
        simp only [hless, not_false_eq_true, if_true, Bool.false_eq_true]
      · exact hw.negTrans _ _ _ (by simpa using hless) (hleast c hc hcn hp)

end DownOrder

/-! ## The three operations -/

omit [DecidableEq α] in
/-- Dropping the last cell takes its item, and no other, out of an indexed heap. -/
theorem shrink_mem {h : Heap α} {n : Nat} (hlen : h.len = n + 1) (hix : h.Indexed) (y : α) :
    Mem { h with len := n } y ↔ h.Mem y ∧ y ≠ h.cell n := by
  constructor
  · rintro ⟨k, hk, rfl⟩
    have hkn : k < n := hk
    refine ⟨⟨k, by omega, rfl⟩, fun heq => ?_⟩
    have hkeq : k = n := hix.inj (by omega) (by omega) heq
    omega
  · rintro ⟨⟨k, hk, rfl⟩, hne⟩
    have hkn : k ≠ n := fun heq => hne (by rw [heq])
    exact ⟨k, show k < n by omega, rfl⟩

variable {less : α → α → Bool}

omit [DecidableEq α] in
theorem shrink_valid {h : Heap α} {n : Nat} (hlen : n ≤ h.len) (hix : h.Indexed)
    (hord : Ordered less h n) : Valid less { h with len := n } where
  indexed k hk := hix k (Nat.lt_of_lt_of_le hk hlen)
  ordered := hord

omit [DecidableEq α] in
theorem nil_valid (c : Nat → α) (ix : α → Nat) : Valid less { len := 0, cell := c, index := ix } where
  indexed _ hk := absurd hk (Nat.not_lt_zero _)
  ordered _ _ hk := absurd hk (Nat.not_lt_zero _)

section Push

variable {h : Heap α} {x : α}

/-- The heap `Push` sifts up in: the item is in the new last cell. -/
def appended (h : Heap α) (x : α) : Heap α :=
  { len := h.len + 1
    cell := fun k => if k = h.len then x else h.cell k
    index := fun y => if y = x then h.len else h.index y }

theorem push_eq (h : Heap α) (x : α) : push less h x = up less h.len (h.appended x) h.len :=
  rfl

theorem appended_mem (h : Heap α) (x y : α) : (h.appended x).Mem y ↔ h.Mem y ∨ y = x := by
  constructor
  · rintro ⟨k, hk, rfl⟩
    have hkl : k < h.len + 1 := hk
    by_cases heq : k = h.len
    · exact .inr (if_pos heq)
    · exact .inl ⟨k, by omega, (if_neg heq).symm⟩
  · rintro (⟨k, hk, rfl⟩ | rfl)
    · exact ⟨k, Nat.lt_succ_of_lt hk, if_neg (by omega)⟩
    · exact ⟨h.len, Nat.lt_succ_self _, if_pos rfl⟩

theorem push_mem (h : Heap α) (x y : α) : (push less h x).Mem y ↔ h.Mem y ∨ y = x := by
  rw [push_eq, (up_keeps less h.len (h.appended x) h.len (Nat.lt_succ_self _) (Nat.le_refl _)).mem,
    appended_mem]

theorem push_len (h : Heap α) (x : α) : (push less h x).len = h.len + 1 :=
  (up_keeps less h.len (h.appended x) h.len (Nat.lt_succ_self _) (Nat.le_refl _)).len

theorem appended_indexed (hix : h.Indexed) (hx : ¬ h.Mem x) : (h.appended x).Indexed := by
  intro k hk
  have hkl : k < h.len + 1 := hk
  show (if (if k = h.len then x else h.cell k) = x then h.len
    else h.index (if k = h.len then x else h.cell k)) = k
  by_cases heq : k = h.len
  · simp [heq]
  · have hne : h.cell k ≠ x := fun hcon => hx ⟨k, by omega, hcon⟩
    rw [if_neg heq, if_neg hne]
    exact hix k (by omega)

theorem push_valid (hw : StrictWeak less) (hv : Valid less h) (hx : ¬ h.Mem x) :
    Valid less (push less h x) := by
  have hkeeps := up_keeps less h.len (h.appended x) h.len (Nat.lt_succ_self _) (Nat.le_refl _)
  refine ⟨hkeeps.indexed (appended_indexed hv.indexed hx), ?_⟩
  rw [push_len, push_eq]
  refine up_ordered hw _ _ _ (Nat.le_refl _) (Nat.lt_succ_self _) ⟨?_, ?_⟩ ?_
  · intro k hk hkn hkl _
    have hlt := parent_lt hk
    show less (if k = h.len then x else h.cell k)
      (if parent k = h.len then x else h.cell (parent k)) = false
    rw [if_neg hkl, if_neg (by omega)]
    exact hv.ordered k hk (by omega)
  -- the new cell is the last one, so it has no children
  · intro c hc hcn hp
    have := parent_lt hc
    omega
  · intro c hc hcn hp
    have := parent_lt hc
    omega

end Push

section Pop

variable {h : Heap α} {n : Nat}

/-- What `Pop` and `Remove` sift before they drop the last cell keeps the items, and the
last cell holds the item that goes. -/
theorem sifted_mem {h' : Heap α} {i : Nat} (hlen : h.len = n + 1) (hin : i ≤ n)
    (hix : h.Indexed) (hk : Keeps (h.swap i n) h' n) (y : α) :
    Mem { h' with len := n } y ↔ h.Mem y ∧ y ≠ h.cell i := by
  have hswap := swap_keeps (h := h) (i := i) (j := n) (n := n + 1) (by omega) (by omega)
    (by omega)
  rw [shrink_mem (by rw [hk.len]; exact hlen) (hk.indexed (hswap.indexed hix)), hk.mem,
    hswap.mem, hk.beyond n (Nat.le_refl _), swap_cell_right]

theorem pop_mem (hlen : h.len = n + 1) (hix : h.Indexed) (y : α) :
    (pop less h).Mem y ↔ h.Mem y ∧ y ≠ h.cell 0 := by
  unfold pop
  simp only [hlen, Nat.add_sub_cancel]
  exact sifted_mem hlen (Nat.zero_le _) hix
    (down_keeps less n n (h.swap 0 n) 0 (by rw [swap_len]; omega)) y

/-- The hole left by swapping cell `i` with the last one. -/
theorem hole_of_swap (hw : StrictWeak less) (hv : Valid less h) {i : Nat}
    (hlen : h.len = n + 1) (hin : i < n) : Hole less (h.swap i n) n i := by
  have hother : ∀ k, k ≠ i → k ≠ n → (h.swap i n).cell k = h.cell k :=
    fun k h1 h2 => swap_cell_other h _ _ h1 h2
  refine ⟨?_, ?_⟩
  · intro k hk hkn hki hp
    have := parent_lt hk
    rw [hother k hki (by omega), hother _ hp (by omega)]
    exact hv.ordered k hk (by omega)
  · intro c hc hcn hp hi
    have hci := parent_lt hc
    have hpi := parent_lt hi
    rw [hother c (by omega) (by omega), hother _ (by omega) (by omega)]
    have h1 := hv.ordered c hc (by omega)
    rw [hp] at h1
    exact hw.negTrans _ _ _ (hv.ordered i hi (by omega)) h1

theorem pop_valid (hw : StrictWeak less) (hv : Valid less h) (hlen : h.len = n + 1) :
    Valid less (pop less h) := by
  have hswap := swap_keeps (h := h) (i := 0) (j := n) (n := n + 1) (by omega) (by omega)
    (by omega)
  have hkeeps := down_keeps less n n (h.swap 0 n) 0 (by rw [swap_len]; omega)
  unfold pop
  simp only [hlen, Nat.add_sub_cancel]
  refine shrink_valid ?_ (hkeeps.indexed (hswap.indexed hv.indexed)) ?_
  · rw [hkeeps.len, swap_len]
    omega
  by_cases hn : n = 0
  · intro k _ hk
    omega
  · exact down_ordered hw _ _ _ (by omega) (hole_of_swap hw hv hlen (by omega))
      fun h0 => absurd h0 (Nat.lt_irrefl 0)

theorem remove_of_last {i : Nat} (hlen : h.len = n + 1) (hi : n = i) :
    remove less h i = { h with len := n } := by
  unfold remove
  simp only [hlen, Nat.add_sub_cancel]
  rw [if_pos hi]

theorem remove_of_lt {i : Nat} (hlen : h.len = n + 1) (hi : i < n) :
    remove less h i =
      { (if i < (down less n n (h.swap i n) i).2 then (down less n n (h.swap i n) i).1
          else up less n (down less n n (h.swap i n) i).1 i) with len := n } := by
  unfold remove
  simp only [hlen, Nat.add_sub_cancel]
  rw [if_neg (by omega)]

variable (less) in
theorem remove_mem {i : Nat} (hlen : h.len = n + 1) (hi : i < h.len) (hix : h.Indexed)
    (y : α) : (remove less h i).Mem y ↔ h.Mem y ∧ y ≠ h.cell i := by
  by_cases hin : n = i
  · rw [remove_of_last hlen hin, ← hin]
    exact shrink_mem hlen hix y
  · rw [remove_of_lt hlen (by omega)]
    have hdown := down_keeps less n n (h.swap i n) i (by rw [swap_len]; omega)
    refine sifted_mem hlen (by omega) hix ?_ y
    split
    · exact hdown
    · exact hdown.trans (up_keeps less n _ i (by omega) (by rw [hdown.len, swap_len]; omega))

theorem remove_valid (hw : StrictWeak less) (hv : Valid less h) {i : Nat}
    (hlen : h.len = n + 1) (hi : i < h.len) : Valid less (remove less h i) := by
  by_cases hin : n = i
  · rw [remove_of_last hlen hin]
    exact shrink_valid (by omega) hv.indexed fun k hk hkn => hv.ordered k hk (by omega)
  rw [remove_of_lt hlen (by omega)]
  have hswap := swap_keeps (h := h) (i := i) (j := n) (n := n + 1) (by omega) (by omega)
    (by omega)
  have hdown := down_keeps less n n (h.swap i n) i (by rw [swap_len]; omega)
  have hix := hdown.indexed (hswap.indexed hv.indexed)
  have hlen' : n ≤ (down less n n (h.swap i n) i).1.len := by
    rw [hdown.len, swap_len]
    omega
  have hole := hole_of_swap hw hv hlen (i := i) (by omega)
  rcases down_cases hw (Nat.le_add_left n i) hole with ⟨hmoved, hord⟩ | ⟨hsame, hbelow⟩
  · rw [if_pos hmoved]
    exact shrink_valid hlen' hix hord
  · have hup := up_keeps less (n := n) n _ i (by omega) hlen'
    rw [if_neg (by rw [hsame]; exact Nat.lt_irrefl _)]
    refine shrink_valid (by rw [hup.len]; exact hlen') (hup.indexed hix) ?_
    rw [hsame]
    exact up_ordered hw n _ i (by omega) (by omega) hole hbelow

end Pop

omit [DecidableEq α] in
/-- No item comes before the one at the root. -/
theorem Valid.root_least {h : Heap α} (hw : StrictWeak less) (hv : Valid less h) {x : α}
    (hx : h.Mem x) : less x (h.cell 0) = false := by
  obtain ⟨i, hi, rfl⟩ := hx
  induction i using Nat.strongRecOn with
  | ind i ih =>
    by_cases h0 : i = 0
    · rw [h0]
      exact hw.irrefl _
    · have hlt : parent i < i := parent_lt (by omega)
      exact hw.negTrans _ _ _ (ih _ hlt (by omega)) (hv.ordered i (by omega) hi)

end Heap

end Lib
