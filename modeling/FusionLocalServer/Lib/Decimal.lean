import Mathlib.Algebra.Group.Int.Defs
import Mathlib.Algebra.Group.Nat.Defs
import Mathlib.Data.Int.Notation
import Mathlib.Data.List.Induction

/-!
# Decimal integers as text

Base-ten rendering of integers and the reader of 64-bit ones: an optional sign, at least
one digit, nothing else, and a value inside the signed 64-bit range.
-/

namespace Lib

/-- Base-ten rendering with a leading minus for negative numbers. -/
def formatInt (z : Int) : List Char :=
  if 0 ≤ z then Nat.toDigits 10 z.toNat else '-' :: Nat.toDigits 10 (-z).toNat

/-- A non-empty run of digits. -/
def parseDigits (ds : List Char) : Option Nat :=
  if ds ≠ [] ∧ ds.all Char.isDigit then some (Nat.ofDigitChars 10 ds 0) else none

/-- The reader of signed 64-bit decimals. -/
def parseInt64 : List Char → Option Int
  | '-' :: ds => (parseDigits ds).bind fun n => if n ≤ 2 ^ 63 then some (-(n : Int)) else none
  | '+' :: ds => (parseDigits ds).bind fun n => if n < 2 ^ 63 then some (n : Int) else none
  | ds => (parseDigits ds).bind fun n => if n < 2 ^ 63 then some (n : Int) else none

/-- The signed 64-bit range. -/
def InInt64 (z : Int) : Prop := -2 ^ 63 ≤ z ∧ z < 2 ^ 63

instance (z : Int) : Decidable (InInt64 z) := inferInstanceAs (Decidable (_ ∧ _))

/-- `++` on a 64-bit integer. -/
def incr64 (z : Int) : Int := if z = 2 ^ 63 - 1 then -2 ^ 63 else z + 1

/-- `- 1` on a 64-bit integer. -/
def decr64 (z : Int) : Int := if z = -2 ^ 63 then 2 ^ 63 - 1 else z - 1

theorem inInt64_incr64 {z : Int} (h : InInt64 z) : InInt64 (incr64 z) := by
  obtain ⟨hlo, hhi⟩ := h
  unfold incr64
  split
  · exact ⟨by omega, by omega⟩
  · exact ⟨by omega, by omega⟩

theorem isDigit_of_mem_toDigits {n : Nat} {c : Char} (h : c ∈ Nat.toDigits 10 n) :
    c.isDigit = true :=
  Nat.isDigit_of_mem_toDigits (by decide) (by decide) h

theorem parseDigits_toDigits (n : Nat) : parseDigits (Nat.toDigits 10 n) = some n := by
  have hall : (Nat.toDigits 10 n).all Char.isDigit = true :=
    List.all_eq_true.mpr fun c hc => isDigit_of_mem_toDigits hc
  rw [parseDigits, if_pos ⟨Nat.toDigits_ne_nil, hall⟩, Nat.ofDigitChars_ten_toDigits]

/-- A rendering of a natural number never begins with a sign. -/
theorem toDigits_eq_cons {n : Nat} :
    ∃ d ds, Nat.toDigits 10 n = d :: ds ∧ d ≠ '-' ∧ d ≠ '+' := by
  cases h : Nat.toDigits 10 n with
  | nil => exact absurd h Nat.toDigits_ne_nil
  | cons d ds =>
    have hd : d.isDigit = true := isDigit_of_mem_toDigits (h ▸ List.mem_cons_self)
    refine ⟨d, ds, rfl, ?_, ?_⟩
    · rintro rfl
      exact absurd hd (by decide)
    · rintro rfl
      exact absurd hd (by decide)

/-- Two integers are not rendered alike. -/
theorem formatInt_injective {a b : Int} (h : formatInt a = formatInt b) : a = b := by
  have hnat : ∀ {m n : Nat}, Nat.toDigits 10 m = Nat.toDigits 10 n → m = n := by
    intro m n h
    have hread := congrArg parseDigits h
    rw [parseDigits_toDigits, parseDigits_toDigits] at hread
    exact Option.some.inj hread
  have hsign : ∀ {m : Nat} {ds : List Char}, Nat.toDigits 10 m ≠ '-' :: ds := by
    intro m ds h
    obtain ⟨d, ds', heq, hm, -⟩ := toDigits_eq_cons (n := m)
    rw [heq] at h
    exact hm (List.cons.inj h).1
  unfold formatInt at h
  split at h <;> split at h
  · have := hnat h
    omega
  · exact absurd h hsign
  · exact absurd h.symm hsign
  · have := hnat (List.cons.inj h).2
    omega

/-- Reading back a rendered 64-bit integer. -/
theorem parseInt64_formatInt {z : Int} (h : InInt64 z) :
    parseInt64 (formatInt z) = some z := by
  obtain ⟨hlo, hhi⟩ := h
  unfold formatInt
  split
  · next hz =>
    obtain ⟨d, ds, heq, hm, hp⟩ := toDigits_eq_cons (n := z.toNat)
    have hread : parseDigits (d :: ds) = some z.toNat := heq ▸ parseDigits_toDigits z.toNat
    rw [heq]
    unfold parseInt64
    split
    · next h => exact absurd (List.cons.inj h).1 hm
    · next h => exact absurd (List.cons.inj h).1 hp
    · rw [hread]
      show (if z.toNat < 2 ^ 63 then some ((z.toNat : Nat) : Int) else none) = some z
      rw [if_pos (by omega), Int.toNat_of_nonneg hz]
  · next hz =>
    show (parseDigits (Nat.toDigits 10 (-z).toNat)).bind _ = some z
    rw [parseDigits_toDigits]
    show (if (-z).toNat ≤ 2 ^ 63 then some (-(((-z).toNat : Nat) : Int)) else none) = some z
    rw [if_pos (by omega)]
    congr 1
    omega

/-- What is read from a rendered integer is that integer. -/
theorem eq_of_parseInt64_formatInt {z y : Int} (h : parseInt64 (formatInt z) = some y) :
    y = z := by
  unfold formatInt at h
  split at h
  · next hz =>
    obtain ⟨d, ds, heq, hm, hp⟩ := toDigits_eq_cons (n := z.toNat)
    have hread : parseDigits (d :: ds) = some z.toNat := heq ▸ parseDigits_toDigits z.toNat
    rw [heq] at h
    unfold parseInt64 at h
    split at h
    · next heq' => exact absurd (List.cons.inj heq').1 hm
    · next heq' => exact absurd (List.cons.inj heq').1 hp
    · rw [hread] at h
      simp only [Option.bind_some, Option.ite_none_right_eq_some, Option.some.injEq] at h
      omega
  · next hz =>
    change (parseDigits (Nat.toDigits 10 (-z).toNat)).bind _ = some y at h
    rw [parseDigits_toDigits] at h
    simp only [Option.bind_some, Option.ite_none_right_eq_some, Option.some.injEq] at h
    omega

/-! ## Fixed width -/

/-- Texts of one length are in order whatever follows them. -/
theorem lt_append {xs : List Char} :
    ∀ {ys : List Char}, xs.length = ys.length → xs < ys → ∀ us vs, xs ++ us < ys ++ vs := by
  induction xs with
  | nil =>
    intro ys hlen h
    rw [List.length_eq_zero_iff.mp hlen.symm] at h
    exact absurd h (List.lt_irrefl _)
  | cons x xs ih =>
    intro ys hlen h us vs
    cases ys with
    | nil => cases hlen
    | cons y ys =>
      rcases List.cons_lt_cons_iff.mp h with hlt | ⟨rfl, hlt⟩
      · exact List.cons_lt_cons_iff.mpr (.inl hlt)
      · exact List.cons_lt_cons_iff.mpr (.inr ⟨rfl, ih (Nat.succ.inj hlen) hlt us vs⟩)

/-- The last `k` digits of a number, with leading zeros. -/
def fixedDigits : Nat → Nat → List Char
  | 0, _ => []
  | k + 1, n => fixedDigits k (n / 10) ++ [Nat.digitChar (n % 10)]

theorem length_fixedDigits (k : Nat) : ∀ n, (fixedDigits k n).length = k := by
  induction k with
  | zero => exact fun _ => rfl
  | succ k ih =>
    intro n
    rw [fixedDigits, List.length_append, ih, List.length_singleton]

theorem isDigit_of_mem_fixedDigits (k : Nat) :
    ∀ n, ∀ c ∈ fixedDigits k n, c.isDigit = true := by
  induction k with
  | zero => exact fun _ c hc => (nomatch hc)
  | succ k ih =>
    intro n c hc
    rcases List.mem_append.mp hc with hc | hc
    · exact ih _ c hc
    · have hdigit : ∀ m, m < 10 → (Nat.digitChar m).isDigit = true := by decide
      rw [List.mem_singleton.mp hc]
      exact hdigit _ (Nat.mod_lt _ (by decide))

/-- Fixed-width digits read back, up to what the width cuts off. -/
theorem ofDigitChars_fixedDigits (k : Nat) :
    ∀ n, Nat.ofDigitChars 10 (fixedDigits k n) 0 = n % 10 ^ k := by
  induction k with
  | zero =>
    intro n
    rw [Nat.pow_zero, Nat.mod_one]
    rfl
  | succ k ih =>
    intro n
    rw [fixedDigits, Nat.ofDigitChars_append, ih,
      Nat.ofDigitChars_cons_digitChar_of_lt_ten (Nat.mod_lt _ (by decide)), Nat.ofDigitChars_nil,
      Nat.pow_succ, Nat.mul_comm (10 ^ k) 10, Nat.mod_mul]
    omega

/-- A digit is the one of its value. -/
theorem digitChar_of_isDigit {c : Char} (h : c.isDigit = true) :
    c.toNat - '0'.toNat < 10 ∧ Nat.digitChar (c.toNat - '0'.toNat) = c := by
  have hall : ∀ n, n < 10 → (Nat.digitChar n).toNat = n + 48 := by decide
  obtain ⟨hlo, hhi⟩ := Char.isDigit_iff_toNat.mp h
  have hlt : c.toNat - 48 < 10 := by
    have : c.toNat ≤ 57 := hhi
    omega
  refine ⟨hlt, Char.toNat_inj.mp ?_⟩
  have hge : 48 ≤ c.toNat := hlo
  exact (hall _ hlt).trans (Nat.sub_add_cancel hge)

/-- A run of digits is the rendering of its value at its width. -/
theorem fixedDigits_ofDigitChars {ds : List Char} (h : ∀ c ∈ ds, c.isDigit = true) :
    fixedDigits ds.length (Nat.ofDigitChars 10 ds 0) = ds := by
  induction ds using List.reverseRecOn with
  | nil => rfl
  | append_singleton ds c ih =>
    obtain ⟨hlt, hchar⟩ := digitChar_of_isDigit (h c (List.mem_append_right _ List.mem_cons_self))
    have hval : Nat.ofDigitChars 10 (ds ++ [c]) 0 =
        10 * Nat.ofDigitChars 10 ds 0 + (c.toNat - '0'.toNat) := by
      rw [Nat.ofDigitChars_append, Nat.ofDigitChars_cons, Nat.ofDigitChars_nil]
    rw [List.length_append, List.length_singleton, fixedDigits, hval,
      Nat.mul_add_div (by decide), Nat.div_eq_of_lt hlt, Nat.add_zero, Nat.mul_add_mod,
      Nat.mod_eq_of_lt hlt, hchar, ih fun c hc => h c (List.mem_append_left _ hc)]

theorem ofDigitChars_lt {ds : List Char} (h : ∀ c ∈ ds, c.isDigit = true) :
    Nat.ofDigitChars 10 ds 0 < 10 ^ ds.length := by
  have hback := congrArg (fun ds => Nat.ofDigitChars 10 ds 0) (fixedDigits_ofDigitChars h)
  rw [show _ = _ from ofDigitChars_fixedDigits _ _] at hback
  exact hback ▸ Nat.mod_lt _ (Nat.pow_pos (by decide))

/-- Padding with zeros up to a width that is enough. -/
theorem replicate_append_toDigits {k n : Nat} (hk : 0 < k) (h : n < 10 ^ k) :
    List.replicate (k - (Nat.toDigits 10 n).length) '0' ++ Nat.toDigits 10 n =
      fixedDigits k n := by
  have hlen := (Nat.length_toDigits_le_iff (by decide) hk).mpr h
  have hdigits : ∀ c ∈ List.replicate (k - (Nat.toDigits 10 n).length) '0' ++
      Nat.toDigits 10 n, c.isDigit = true := by
    intro c hc
    rcases List.mem_append.mp hc with hc | hc
    · rw [(List.mem_replicate.mp hc).2]
      rfl
    · exact isDigit_of_mem_toDigits hc
  have hcanon := fixedDigits_ofDigitChars hdigits
  rw [List.length_append, List.length_replicate, Nat.sub_add_cancel hlen,
    Nat.ofDigitChars_append, Nat.ofDigitChars_replicate_zero, Nat.mul_zero,
    Nat.ofDigitChars_ten_toDigits] at hcanon
  exact hcanon.symm

/-- At one width the order of the texts is that of the numbers. -/
theorem fixedDigits_lt {k : Nat} :
    ∀ {a b : Nat}, a < b → b < 10 ^ k → fixedDigits k a < fixedDigits k b := by
  induction k with
  | zero => exact fun hab hb => by omega
  | succ k ih =>
    intro a b hab hb
    have hdigit : ∀ n, n < 10 → ∀ m, m < n → Nat.digitChar m < Nat.digitChar n := by decide
    rw [fixedDigits, fixedDigits]
    by_cases hdiv : a / 10 = b / 10
    · rw [hdiv]
      refine List.append_left_lt (List.cons_lt_cons_iff.mpr (.inl ?_))
      exact hdigit _ (Nat.mod_lt _ (by decide)) _ (by omega)
    · exact lt_append (by rw [length_fixedDigits, length_fixedDigits])
        (ih (by omega) (by rw [Nat.pow_succ] at hb; omega)) _ _

end Lib
