import Mathlib.Data.List.Basic
import FusionLocalServer.Lib.Utf8

/-!
# Form-urlencoded pairs

A list of pairs of byte strings as one line of text: a letter, a digit or one of `* - . _` stands
for itself, a space is a plus, and every other byte is a percent sign with two hexadecimal digits;
`=` is between the parts of a pair and `&` between the pairs. There are two readers. One takes
whatever it is given and leaves alone a percent sign that no two digits follow; the other drops a
pair with such a sign, or with a semicolon. Both read back what is written.
-/

namespace Lib.FormUrl

/-! ## Bytes -/

def byte (c : Char) : UInt8 := UInt8.ofNat c.toNat

def between (lo hi : Char) (b : UInt8) : Bool := byte lo ≤ b && b ≤ byte hi

def alphanumeric (b : UInt8) : Bool := between 'A' 'Z' b || between 'a' 'z' b || between '0' '9' b

/-- The bytes that stand for themselves. -/
def unreserved (b : UInt8) : Bool := alphanumeric b || "*-._".toList.any fun c => byte c == b

/-- The bytes of a line. -/
def inAlphabet (b : UInt8) : Bool := unreserved b || "%&=+".toList.any fun c => byte c == b

def hexDigit (n : Nat) : UInt8 :=
  if n < 10 then UInt8.ofNat (48 + n) else UInt8.ofNat (55 + n)

def hexValue (b : UInt8) : Option Nat :=
  if between '0' '9' b then some (b.toNat - 48)
  else if between 'A' 'F' b then some (b.toNat - 55)
  else if between 'a' 'f' b then some (b.toNat - 87)
  else none

/-- A fact about all bytes is one about the numbers below 256. -/
theorem forall_byte {P : UInt8 → Prop} (h : ∀ n : Fin 256, P (UInt8.ofNat n.val)) (b : UInt8) :
    P b := by
  have := h ⟨b.toNat, UInt8.toNat_lt b⟩
  rwa [UInt8.ofNat_toNat] at this

theorem forall_of_all {α : Type} {p : α → Prop} [DecidablePred p] {l : List α}
    (h : l.all (fun a => decide (p a)) = true) : ∀ a ∈ l, p a :=
  fun a ha => of_decide_eq_true (List.all_eq_true.mp h a ha)

/-! ## Writing -/

def escapeByte (b : UInt8) : List UInt8 :=
  if unreserved b then [b]
  else if b = byte ' ' then [byte '+']
  else [byte '%', hexDigit (b.toNat / 16), hexDigit (b.toNat % 16)]

def escape (bs : List UInt8) : List UInt8 := bs.flatMap escapeByte

def writePair (p : List UInt8 × List UInt8) : List UInt8 := escape p.1 ++ byte '=' :: escape p.2

def serialize (ps : List (List UInt8 × List UInt8)) : List UInt8 :=
  [byte '&'].intercalate (ps.map writePair)

/-! ## Reading -/

/-- What is escaped, or nothing where an escape is not complete. -/
def unescape : List UInt8 → Option (List UInt8)
  | [] => some []
  | c :: rest =>
    if c = byte '%' then
      match rest with
      | a :: b :: rest =>
        match hexValue a, hexValue b with
        | some x, some y => (unescape rest).map (UInt8.ofNat (16 * x + y) :: ·)
        | _, _ => none
      | _ => none
    else (unescape rest).map ((if c = byte '+' then byte ' ' else c) :: ·)

/-- What is escaped, an escape that is not complete being taken as it stands. -/
def percentDecode : List UInt8 → List UInt8
  | [] => []
  | c :: rest =>
    if c = byte '%' then
      match rest with
      | a :: b :: rest =>
        match hexValue a, hexValue b with
        | some x, some y => UInt8.ofNat (16 * x + y) :: percentDecode rest
        | _, _ => c :: percentDecode (a :: b :: rest)
      | rest => c :: percentDecode rest
    else (if c = byte '+' then byte ' ' else c) :: percentDecode rest

/-- The parts between ampersands, the empty ones left out. -/
def pieces (line : List UInt8) : List (List UInt8) := (line.splitOn (byte '&')).filter (· ≠ [])

/-- What comes before the first `b`, and what comes after it. -/
def cut (b : UInt8) (line : List UInt8) : List UInt8 × List UInt8 :=
  (line.takeWhile (· ≠ b), (line.dropWhile (· ≠ b)).drop 1)

/-- The reader that takes everything. -/
def parse (line : List UInt8) : List (List UInt8 × List UInt8) :=
  (pieces line).map fun piece =>
    (percentDecode (cut (byte '=') piece).1, percentDecode (cut (byte '=') piece).2)

/-- The reader that drops the pairs that are not written properly. -/
def parseStrict (line : List UInt8) : List (List UInt8 × List UInt8) :=
  (pieces line).filterMap fun piece =>
    if byte ';' ∈ piece then none
    else do
      let name ← unescape (cut (byte '=') piece).1
      let value ← unescape (cut (byte '=') piece).2
      pure (name, value)

example : parseStrict (encodeUtf8 "a=1;b&c=d+e%2F".toList) =
    [(encodeUtf8 "c".toList, encodeUtf8 "d e/".toList)] := by
  decide +kernel

/-! ## Reading back -/

theorem unreserved_ne {b : UInt8} :
    unreserved b = true → b ≠ byte '%' ∧ b ≠ byte '+' ∧ b ≠ byte '&' ∧ b ≠ byte '=' ∧ b ≠ byte ';' :=
  forall_byte (P := fun b => unreserved b = true → b ≠ byte '%' ∧ b ≠ byte '+' ∧ b ≠ byte '&' ∧
    b ≠ byte '=' ∧ b ≠ byte ';') (by decide +kernel) b

/-- A byte that begins no escape. -/
theorem unescape_of_ne {c : UInt8} (h : c ≠ byte '%') (rest : List UInt8) :
    unescape (c :: rest) = (unescape rest).map ((if c = byte '+' then byte ' ' else c) :: ·) := by
  rw [unescape.eq_def]
  exact if_neg h

theorem percentDecode_of_ne {c : UInt8} (h : c ≠ byte '%') (rest : List UInt8) :
    percentDecode (c :: rest) = (if c = byte '+' then byte ' ' else c) :: percentDecode rest := by
  rw [percentDecode.eq_def]
  exact if_neg h

theorem hexValue_hexDigit {n : Nat} (h : n < 16) : hexValue (hexDigit n) = some n := by
  have : ∀ n < 16, hexValue (hexDigit n) = some n := by decide
  exact this n h

theorem unescape_percent (b : UInt8) (rest : List UInt8) :
    unescape ([byte '%', hexDigit (b.toNat / 16), hexDigit (b.toNat % 16)] ++ rest) =
      (unescape rest).map (b :: ·) := by
  have hlt : b.toNat < 256 := UInt8.toNat_lt b
  have hb : UInt8.ofNat (16 * (b.toNat / 16) + b.toNat % 16) = b := by
    rw [Nat.div_add_mod, UInt8.ofNat_toNat]
  simp only [List.cons_append, List.nil_append]
  rw [unescape, if_pos rfl]
  simp only [hexValue_hexDigit (show b.toNat / 16 < 16 by omega),
    hexValue_hexDigit (show b.toNat % 16 < 16 by omega), hb]

/-- Reading what one byte is written as. -/
theorem unescape_escapeByte (b : UInt8) (rest : List UInt8) :
    unescape (escapeByte b ++ rest) = (unescape rest).map (b :: ·) := by
  unfold escapeByte
  by_cases hb : unreserved b = true
  · obtain ⟨hpercent, hplus, -⟩ := unreserved_ne hb
    rw [if_pos hb, List.singleton_append, unescape_of_ne hpercent, if_neg hplus]
  · rw [if_neg hb]
    by_cases hspace : b = byte ' '
    · rw [if_pos hspace, List.singleton_append, unescape_of_ne (by decide), if_pos rfl, hspace]
    · rw [if_neg hspace]
      exact unescape_percent b rest

theorem unescape_escape_append (bs rest : List UInt8) :
    unescape (escape bs ++ rest) = (unescape rest).map (bs ++ ·) := by
  induction bs with
  | nil => simp [escape]
  | cons b bs ih =>
    have hsplit : escape (b :: bs) ++ rest = escapeByte b ++ (escape bs ++ rest) := by
      simp [escape]
    rw [hsplit, unescape_escapeByte, ih, Option.map_map]
    rfl

theorem unescape_escape (bs : List UInt8) : unescape (escape bs) = some bs := by
  have h := unescape_escape_append bs []
  rw [List.append_nil] at h
  rw [h]
  simp [unescape]

/-- Where every escape is complete, the two readers agree. -/
theorem percentDecode_of_unescape (line : List UInt8) :
    ∀ {bs : List UInt8}, unescape line = some bs → percentDecode line = bs := by
  fun_induction unescape line with
  | case1 =>
    intro bs h
    cases h
    rfl
  | case2 a b rest x y hy hx ih =>
    intro bs h
    obtain ⟨bs', hbs', rfl⟩ := Option.map_eq_some_iff.mp h
    rw [percentDecode, if_pos rfl]
    simp only [hx, hy, ih hbs']
  | case3 => exact fun h => nomatch h
  | case4 => exact fun h => nomatch h
  | case5 c rest hc ih =>
    intro bs h
    obtain ⟨bs', hbs', rfl⟩ := Option.map_eq_some_iff.mp h
    rw [percentDecode_of_ne hc, ih hbs']

/-- An escaped byte string is in the alphabet, and the separators are not in it. -/
theorem mem_escapeByte {x : UInt8} : ∀ b ∈ escapeByte x,
    inAlphabet b = true ∧ b ≠ byte '&' ∧ b ≠ byte '=' ∧ b ≠ byte ';' := by
  refine forall_of_all ?_
  exact forall_byte (P := fun x => (escapeByte x).all (fun b => decide (inAlphabet b = true ∧
    b ≠ byte '&' ∧ b ≠ byte '=' ∧ b ≠ byte ';')) = true) (by decide +kernel) x

theorem mem_escape {bs : List UInt8} {b : UInt8} (h : b ∈ escape bs) :
    inAlphabet b = true ∧ b ≠ byte '&' ∧ b ≠ byte '=' ∧ b ≠ byte ';' := by
  obtain ⟨x, -, hx⟩ := List.mem_flatMap.mp h
  exact mem_escapeByte b hx

theorem mem_writePair {p : List UInt8 × List UInt8} {b : UInt8} (h : b ∈ writePair p) :
    inAlphabet b = true ∧ b ≠ byte '&' ∧ b ≠ byte ';' := by
  rcases List.mem_append.mp h with hname | hvalue
  · obtain ⟨hin, hand, -, hsemi⟩ := mem_escape hname
    exact ⟨hin, hand, hsemi⟩
  · rcases List.mem_cons.mp hvalue with rfl | hvalue
    · decide
    · obtain ⟨hin, hand, -, hsemi⟩ := mem_escape hvalue
      exact ⟨hin, hand, hsemi⟩

theorem cut_writePair (p : List UInt8 × List UInt8) :
    cut (byte '=') (writePair p) = (escape p.1, escape p.2) := by
  have hname : ∀ b ∈ escape p.1, decide (b ≠ byte '=') = true := fun b hb =>
    decide_eq_true (mem_escape hb).2.2.1
  rw [cut, writePair, List.takeWhile_append_of_pos hname, List.dropWhile_append_of_pos hname,
    List.takeWhile_cons_of_neg (by simp), List.dropWhile_cons_of_neg (by simp), List.append_nil]
  rfl

theorem pieces_serialize (ps : List (List UInt8 × List UInt8)) :
    pieces (serialize ps) = ps.map writePair := by
  unfold pieces serialize
  cases ps with
  | nil => rfl
  | cons p ps =>
    rw [List.splitOn_intercalate]
    · refine List.filter_eq_self.mpr fun piece hpiece => ?_
      obtain ⟨p, -, rfl⟩ := List.mem_map.mp hpiece
      simp [writePair]
    · intro piece hpiece hmem
      obtain ⟨p, -, rfl⟩ := List.mem_map.mp hpiece
      exact (mem_writePair hmem).2.1 rfl
    · simp

theorem parse_serialize (ps : List (List UInt8 × List UInt8)) : parse (serialize ps) = ps := by
  rw [parse, pieces_serialize, List.map_map]
  refine List.map_id'' (fun p => ?_) ps
  simp only [Function.comp, cut_writePair, percentDecode_of_unescape _ (unescape_escape _)]

theorem parseStrict_serialize (ps : List (List UInt8 × List UInt8)) :
    parseStrict (serialize ps) = ps := by
  rw [parseStrict, pieces_serialize, List.filterMap_map]
  refine (List.filterMap_congr fun p _ => ?_).trans List.filterMap_some
  have hsemi : byte ';' ∉ writePair p := fun h => (mem_writePair h).2.2 rfl
  simp [hsemi, cut_writePair, unescape_escape]

/-- What is written is in the alphabet. -/
theorem mem_serialize {ps : List (List UInt8 × List UInt8)} {b : UInt8} (h : b ∈ serialize ps) :
    inAlphabet b = true := by
  induction ps with
  | nil => exact absurd h (List.not_mem_nil)
  | cons p ps ih =>
    cases ps with
    | nil =>
      rw [serialize, List.map_singleton, List.intercalate_singleton] at h
      exact (mem_writePair h).1
    | cons q ps =>
      rw [serialize, List.map_cons, List.map_cons, List.intercalate_cons_cons,
        List.append_assoc] at h
      rcases List.mem_append.mp h with hp | h
      · exact (mem_writePair hp).1
      · rcases List.mem_append.mp h with hand | hrest
        · rw [List.mem_singleton.mp hand]
          decide
        · exact ih hrest

end Lib.FormUrl
