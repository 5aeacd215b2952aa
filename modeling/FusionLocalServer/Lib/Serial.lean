import Mathlib.Data.Set.Insert

/-!
# Numbers from a counter that is kept in a file

Things are numbered from a counter, and there is a file for some of the numbers. The counter
is in a file of its own, and in memory while it is loaded. As long as the counter stays above
the numbers of the files (`Ahead`), a number just given out has no file (`Ahead.fresh`). All
the moves keep it so but two that have to be asked to: starting over from one when the
counter cannot be read, and putting older files in the place of the ones there are.
-/

namespace Lib

/-- A counter, in memory and on disk, and the numbers there are files for. -/
structure Numbered where
  memory : Option Int
  disk : Option Int
  files : Set Int

namespace Numbered

/-- All the files have a lower number. -/
def Below (files : Set Int) (n : Int) : Prop := ∀ k ∈ files, k < n

inductive Move (s : Numbered) : Numbered → Prop
  | load {n : Int} : s.memory = none → s.disk = some n → Move s { s with memory := some n }
  /-- The counter starts over, when there are no files. -/
  | recover : s.memory = none → s.files = ∅ → Move s { s with memory := some 1, disk := none }
  /-- The next number is given out. -/
  | issue {n : Int} : s.memory = some n →
      Move s { s with memory := some (n + 1), disk := some (n + 1) }
  | save {n : Int} : s.memory = some n → Move s { s with disk := some n }
  | write {n k : Int} : s.memory = some n → k < n → Move s { s with files := insert k s.files }
  | remove {files : Set Int} : files ⊆ s.files → Move s { s with files }
  | forget : Move s { s with memory := none }
  | damage : Move s { s with disk := none }
  /-- Other files are put in the place of these, with a counter that is above them. -/
  | restore {disk : Option Int} {files : Set Int} : (∀ n, disk = some n → Below files n) →
      Move s { memory := none, disk, files }

/-- The counter is above the files. -/
structure Ahead (s : Numbered) : Prop where
  memory : ∀ n, s.memory = some n → Below s.files n
  disk : ∀ n, s.disk = some n → Below s.files n
  agree : ∀ n m, s.memory = some n → s.disk = some m → m = n

variable {s t : Numbered}

theorem Below.mono {files : Set Int} {n m : Int} (h : Below files n) (hle : n ≤ m) :
    Below files m := fun k hk => Int.lt_of_lt_of_le (h k hk) hle

theorem Below.insert {files : Set Int} {n k : Int} (h : Below files n) (hk : k < n) :
    Below (insert k files) n := by
  intro j hj
  rcases Set.mem_insert_iff.mp hj with rfl | hj
  · exact hk
  · exact h j hj

theorem Ahead.move (h : Ahead s) (hmove : Move s t) : Ahead t := by
  cases hmove with
  | load hmemory hdisk =>
    constructor
    · exact fun m hm => Option.some.inj hm ▸ h.disk _ hdisk
    · exact h.disk
    · intro k m hk hm
      rw [hdisk] at hm
      exact (Option.some.inj hm).symm.trans (Option.some.inj hk)
  | recover hmemory hempty =>
    constructor
    · intro n _ k hk
      rw [hempty] at hk
      exact absurd hk (Set.notMem_empty k)
    · exact fun _ hm => (nomatch hm)
    · exact fun _ _ _ hm => (nomatch hm)
  | @issue n hmemory =>
    have hbelow : Below s.files (n + 1) := (h.memory n hmemory).mono (by omega)
    constructor
    · exact fun m hm => Option.some.inj hm ▸ hbelow
    · exact fun m hm => Option.some.inj hm ▸ hbelow
    · exact fun k m hk hm => (Option.some.inj hm).symm.trans (Option.some.inj hk)
  | @save n hmemory =>
    constructor
    · exact h.memory
    · exact fun m hm => Option.some.inj hm ▸ h.memory n hmemory
    · intro k m hk hm
      rw [hmemory] at hk
      exact (Option.some.inj hm).symm.trans (Option.some.inj hk)
  | @write n k hmemory hlt =>
    constructor
    · intro m hm
      rw [hmemory] at hm
      exact Option.some.inj hm ▸ (h.memory n hmemory).insert hlt
    · intro m hm
      have hsame : m = n := h.agree n m hmemory hm
      exact (h.disk m hm).insert (hsame ▸ hlt)
    · exact h.agree
  | remove hsub =>
    constructor
    · exact fun n hn k hk => h.memory n hn k (hsub hk)
    · exact fun n hn k hk => h.disk n hn k (hsub hk)
    · exact h.agree
  | forget =>
    constructor
    · exact fun _ hn => (nomatch hn)
    · exact h.disk
    · exact fun _ _ hn => (nomatch hn)
  | damage =>
    constructor
    · exact h.memory
    · exact fun _ hn => (nomatch hn)
    · exact fun _ _ _ hm => (nomatch hm)
  | restore hbelow =>
    constructor
    · exact fun _ hn => (nomatch hn)
    · exact hbelow
    · exact fun _ _ hn => (nomatch hn)

/-- There is no file for the number that comes next. -/
theorem Ahead.fresh (h : Ahead s) {n : Int} (hn : s.memory = some n) : n ∉ s.files :=
  fun hmem => Int.lt_irrefl n (h.memory n hn n hmem)

end Numbered

end Lib
