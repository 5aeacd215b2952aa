import Mathlib.Data.List.Basic

/-!
# Append-only logs of lines

A log is a byte string of newline-terminated lines, one record a line. Its reader goes
line by line, skips blank lines, and stops at a line it cannot decode or at an unfinished
one; what it has accepted so far is the part of the log worth keeping. A record of a newer
format refuses the whole log.

`Lines bs rs` says that the bytes are exactly the lines of the records. An append that
fails part way leaves a `Fragment` behind such lines, which the reader does not see and
cuts off. An append on top of a fragment is another matter: there the bytes are no longer
lines, and nothing is promised.
-/

namespace Lib

/-- `'\n'` -/
def newline : UInt8 := 10

/-- The line before the first newline and the bytes behind it. -/
def nextLine (bs : List UInt8) : Option (List UInt8 × List UInt8) :=
  if newline ∈ bs then
    some (bs.takeWhile (· ≠ newline), (bs.dropWhile (· ≠ newline)).tail)
  else none

/-- The bytes end a line, or there are none. -/
def EndsClean (bs : List UInt8) : Prop := bs = [] ∨ bs.getLast? = some newline

instance (bs : List UInt8) : Decidable (EndsClean bs) :=
  inferInstanceAs (Decidable (_ ∨ _))

variable {R : Type}

/-- How a reader treats one line: whether it is blank, what it decodes to, and whether a
record is of a newer format. -/
structure LineReader (R : Type) where
  blank : List UInt8 → Bool
  decode : List UInt8 → Option R
  future : R → Bool

/-- What reading a log comes to: the records, the length of the part they take up, and
whether the reader stopped at a line it could not decode. -/
structure LogScan (R : Type) where
  recs : List R
  validEnd : Nat
  corrupt : Bool

/-- A line accepted in front of what follows it. -/
def LogScan.keep (line : List UInt8) (recs : List R) (s : LogScan R) : LogScan R :=
  { s with recs := recs ++ s.recs, validEnd := line.length + 1 + s.validEnd }

namespace LineReader

/-- The reader's loop; the error is the record of a newer format. -/
def scan (rd : LineReader R) : Nat → List UInt8 → Except R (LogScan R)
  | 0, _ => .ok { recs := [], validEnd := 0, corrupt := false }
  | fuel + 1, rest =>
    match nextLine rest with
    | none => .ok { recs := [], validEnd := 0, corrupt := false }
    | some (line, rest) =>
      if rd.blank line then (rd.scan fuel rest).map (LogScan.keep line [])
      else
        match rd.decode line with
        | none => .ok { recs := [], validEnd := 0, corrupt := true }
        | some r =>
          if rd.future r then .error r
          else (rd.scan fuel rest).map (LogScan.keep line [r])

/-- Reading a whole log. -/
def read (rd : LineReader R) (bs : List UInt8) : Except R (LogScan R) :=
  rd.scan (bs.length + 1) bs

/-- The line of a record: no newline in it, not blank, and it decodes to the record. -/
structure Line (rd : LineReader R) (line : List UInt8) (r : R) : Prop where
  oneLine : newline ∉ line
  notBlank : rd.blank line = false
  decodes : rd.decode line = some r
  current : rd.future r = false

/-- The bytes are the lines of the records, in order. -/
inductive Lines (rd : LineReader R) : List UInt8 → List R → Prop
  | nil : Lines rd [] []
  | cons {line bs : List UInt8} {r : R} {rs : List R} :
      rd.Line line r → Lines rd bs rs → Lines rd (line ++ newline :: bs) (r :: rs)

/-- Bytes of an unfinished line. -/
def Fragment (bs : List UInt8) : Prop := newline ∉ bs

variable {rd : LineReader R} {line bs frag : List UInt8} {r : R} {rs : List R}

theorem Lines.snoc (h : rd.Lines bs rs) (hline : rd.Line line r) :
    rd.Lines (bs ++ (line ++ [newline])) (rs ++ [r]) := by
  induction h with
  | nil => exact .cons hline .nil
  | cons hfirst _ ih =>
    rw [List.append_assoc, List.cons_append, List.cons_append]
    exact .cons hfirst ih

/-- A log whose end is clean has no unfinished line. -/
theorem Fragment.eq_nil (hfrag : Fragment frag) (hclean : EndsClean (bs ++ frag)) :
    frag = [] := by
  by_contra hne
  rcases hclean with hnil | hlast
  · exact hne (List.append_eq_nil_iff.mp hnil).2
  · rw [List.getLast?_append_of_ne_nil _ hne] at hlast
    exact hfrag (List.mem_of_getLast? hlast)

theorem Lines.endsClean (h : rd.Lines bs rs) : EndsClean bs := by
  induction h with
  | nil => exact .inl rfl
  | @cons line bs r rs _ _ ih =>
    refine .inr ?_
    rw [List.getLast?_append, List.getLast?_cons]
    rcases ih with rfl | ih
    · rfl
    · rw [ih]
      rfl

theorem nextLine_line (h : newline ∉ line) (rest : List UInt8) :
    nextLine (line ++ newline :: rest) = some (line, rest) := by
  have hall : ∀ b ∈ line, decide (b ≠ newline) = true := fun b hb =>
    decide_eq_true fun heq => h (heq ▸ hb)
  rw [nextLine, if_pos (by simp), List.takeWhile_append_of_pos hall,
    List.dropWhile_append_of_pos hall]
  simp

theorem scan_lines (h : rd.Lines bs rs) (hfrag : Fragment frag) :
    ∀ fuel, bs.length < fuel →
      rd.scan fuel (bs ++ frag) = .ok { recs := rs, validEnd := bs.length, corrupt := false } := by
  induction h with
  | nil =>
    intro fuel hfuel
    cases fuel with
    | zero => exact absurd hfuel (by simp)
    | succ fuel =>
      rw [scan, List.nil_append, nextLine, if_neg hfrag]
      rfl
  | @cons line bs r rs hline _ ih =>
    intro fuel hfuel
    cases fuel with
    | zero => exact absurd hfuel (by simp)
    | succ fuel =>
      rw [List.length_append, List.length_cons] at hfuel
      rw [List.append_assoc, List.cons_append, scan, nextLine_line hline.oneLine]
      simp only [hline.notBlank, hline.decodes, hline.current, Bool.false_eq_true, if_false]
      rw [ih fuel (by omega)]
      simp only [Except.map, LogScan.keep, List.length_append, List.length_cons]
      congr 2
      omega

/-- A log of lines reads back as their records, and an unfinished line behind them is not
part of what is kept. -/
theorem read_lines (h : rd.Lines bs rs) (hfrag : Fragment frag) :
    rd.read (bs ++ frag) = .ok { recs := rs, validEnd := bs.length, corrupt := false } := by
  refine scan_lines h hfrag _ ?_
  rw [List.length_append]
  omega

/-- The reader stops at the bytes: they hold no whole line, or begin with one that is neither
blank nor can be decoded. -/
inductive Stops (rd : LineReader R) (tail : List UInt8) : Prop
  | unfinished : nextLine tail = none → Stops rd tail
  | undecodable {line rest : List UInt8} : nextLine tail = some (line, rest) →
      rd.blank line = false → rd.decode line = none → Stops rd tail

theorem Fragment.stops (h : Fragment frag) : rd.Stops frag :=
  .unfinished (if_neg h)

theorem scan_stops {tail : List UInt8} (h : rd.Stops tail) (fuel : Nat) :
    ∃ corrupt, rd.scan (fuel + 1) tail = .ok { recs := [], validEnd := 0, corrupt } := by
  cases h with
  | unfinished hnone =>
    rw [scan, hnone]
    exact ⟨false, rfl⟩
  | undecodable hline hblank hdecode =>
    rw [scan, hline]
    simp only [hblank, hdecode, Bool.false_eq_true, if_false]
    exact ⟨true, rfl⟩

/-- A log of lines reads back as their records, whatever stops the reader behind them. -/
theorem read_lines_stops {tail : List UInt8} (h : rd.Lines bs rs) (htail : rd.Stops tail) :
    ∃ corrupt, rd.read (bs ++ tail) = .ok { recs := rs, validEnd := bs.length, corrupt } := by
  have hscan : ∀ fuel, bs.length < fuel → ∃ corrupt,
      rd.scan fuel (bs ++ tail) = .ok { recs := rs, validEnd := bs.length, corrupt } := by
    induction h with
    | nil =>
      intro fuel hfuel
      cases fuel with
      | zero => exact absurd hfuel (by simp)
      | succ fuel => exact scan_stops htail fuel
    | @cons line bs r rs hline _ ih =>
      intro fuel hfuel
      cases fuel with
      | zero => exact absurd hfuel (by simp)
      | succ fuel =>
        rw [List.length_append, List.length_cons] at hfuel
        obtain ⟨corrupt, hrest⟩ := ih fuel (by omega)
        refine ⟨corrupt, ?_⟩
        rw [List.append_assoc, List.cons_append, scan, nextLine_line hline.oneLine]
        simp only [hline.notBlank, hline.decodes, hline.current, Bool.false_eq_true, if_false]
        rw [hrest]
        simp only [Except.map, LogScan.keep, List.length_append, List.length_cons]
        congr 2
        omega
  refine hscan _ ?_
  rw [List.length_append]
  omega

end LineReader

end Lib
