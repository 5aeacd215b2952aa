import Mathlib.Logic.Function.Basic

/-!
# Following a document by its changes

A document changes from revision to revision; some of the changes are published, each as
what it does to the document and the revision it leads to, and copies of the document are
handed out with the revision they are of. `history` is the document at each revision there
has been. A reader that loads copies, and takes a published change only when it is the one
right after its own revision, always holds the document of its revision (`Reader.At`),
whatever it is given and in whatever order.
-/

namespace Lib

variable {D P : Type}

/-- A document's history, the changes published and the copies handed out. -/
structure Feed (D P : Type) where
  rev : Int
  history : Int → Option D
  frames : List (Int × P)
  copies : List (Int × D)

namespace Feed

/-- A document of which nothing has been said. -/
def start (rev : Int) (d : D) : Feed D P :=
  { rev, history := fun v => if v = rev then some d else none, frames := [], copies := [] }

/-- The document becomes another one. -/
def move (f : Feed D P) (d : D) : Feed D P :=
  { f with rev := f.rev + 1, history := Function.update f.history (f.rev + 1) (some d) }

/-- The last change is published. -/
def publish (f : Feed D P) (p : P) : Feed D P := { f with frames := f.frames ++ [(f.rev, p)] }

/-- A copy is handed out. -/
def copy (f : Feed D P) (d : D) : Feed D P := { f with copies := f.copies ++ [(f.rev, d)] }

variable (act : P → D → D)

/-- What is published and handed out is true. -/
structure Sound (f : Feed D P) : Prop where
  frames : ∀ v p, (v, p) ∈ f.frames →
    v ≤ f.rev ∧ ∃ d, f.history (v - 1) = some d ∧ f.history v = some (act p d)
  copies : ∀ v d, (v, d) ∈ f.copies → v ≤ f.rev ∧ f.history v = some d

variable {act} {f : Feed D P}

theorem Sound.start (rev : Int) (d : D) : Sound act (start rev d : Feed D P) :=
  ⟨fun _ _ h => (nomatch h), fun _ _ h => (nomatch h)⟩

/-- The past stays what it was. -/
theorem move_history (d : D) {v : Int} (h : v ≤ f.rev) : (f.move d).history v = f.history v :=
  Function.update_of_ne (by omega) ..

theorem Sound.move (h : f.Sound act) (d : D) : (f.move d).Sound act := by
  constructor
  · intro v p hmem
    obtain ⟨hle, d', hbefore, hafter⟩ := h.frames v p hmem
    refine ⟨?_, d', ?_, ?_⟩
    · show v ≤ f.rev + 1
      omega
    · rw [move_history d (by omega), hbefore]
    · rw [move_history d hle, hafter]
  · intro v d' hmem
    obtain ⟨hle, hcopy⟩ := h.copies v d' hmem
    constructor
    · show v ≤ f.rev + 1
      omega
    · rw [move_history d hle, hcopy]

theorem Sound.publish (h : f.Sound act) {p : P} {d : D} (hbefore : f.history (f.rev - 1) = some d)
    (hafter : f.history f.rev = some (act p d)) : (f.publish p).Sound act := by
  constructor
  · intro v q hmem
    rcases List.mem_append.mp hmem with hmem | hmem
    · exact h.frames v q hmem
    · cases List.mem_singleton.mp hmem
      exact ⟨Int.le_refl _, d, hbefore, hafter⟩
  · exact h.copies

theorem Sound.copy (h : f.Sound act) {d : D} (hnow : f.history f.rev = some d) :
    (f.copy d).Sound act := by
  constructor
  · exact h.frames
  · intro v d' hmem
    rcases List.mem_append.mp hmem with hmem | hmem
    · exact h.copies v d' hmem
    · cases List.mem_singleton.mp hmem
      exact ⟨Int.le_refl _, hnow⟩

/-! ## Readers -/

/-- A document is the one of a revision. -/
def At (f : Feed D P) (rev : Int) (d : D) : Prop := rev ≤ f.rev ∧ f.history rev = some d

theorem At.move {rev : Int} {d : D} (h : f.At rev d) (d' : D) : (f.move d').At rev d := by
  constructor
  · show rev ≤ f.rev + 1
    have := h.1
    omega
  · rw [move_history d' h.1, h.2]

/-- The change right after its revision leads a reader to the next one. -/
theorem At.take {rev : Int} {d : D} (h : f.At rev d) (hf : f.Sound act) {p : P}
    (hmem : (rev + 1, p) ∈ f.frames) : f.At (rev + 1) (act p d) := by
  obtain ⟨hle, d', hbefore, hafter⟩ := hf.frames _ _ hmem
  have hsame : d' = d := by
    rw [show rev + 1 - 1 = rev by omega, h.2] at hbefore
    cases hbefore
    rfl
  exact ⟨hle, hsame ▸ hafter⟩

theorem At.load (hf : f.Sound act) {rev : Int} {d : D} (hmem : (rev, d) ∈ f.copies) : f.At rev d :=
  hf.copies rev d hmem

end Feed

end Lib
