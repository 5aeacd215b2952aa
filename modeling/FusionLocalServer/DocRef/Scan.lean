import Mathlib.Data.List.Infix
import FusionLocalServer.Lib.FormUrl

/-!
# Document references in stored text (`internal/docref/docref.go`)

`Count` goes over a text from one token prefix to the next and reads the item id out of what
follows each. Its answer is one for every place of the text at which a token with the id begins.
The prefilters ask for the last segment of the id as it is, while a token may have it escaped.
-/

namespace FusionLocalServer.DocRef

open Lib Lib.FormUrl

/-! ## The scan -/

/-- `Prefix`. -/
def docRefPrefix : List UInt8 := "fls:doc?".toList.map byte

/-- `Key`: what comes after the last colon. -/
def key (itemID : List UInt8) : List UInt8 :=
  (itemID.reverse.takeWhile (· ≠ byte ':')).reverse

def mayContain (blob itemID : List UInt8) : Bool :=
  if key itemID = [] then false
  else decide (docRefPrefix <:+: blob) && decide (key itemID <:+: blob)

def mayMention (blob itemID : List UInt8) : Bool :=
  if key itemID = [] then false else decide (key itemID <:+: blob)

/-- `tokenItemID`: the first `itemId` that can be read, or nothing. -/
def tokenItemID (q : List UInt8) : List UInt8 :=
  ((parseStrict q).lookup ("itemId".toList.map byte)).getD []

def isTokenByte (b : UInt8) : Bool :=
  between 'A' 'Z' b || between 'a' 'z' b || between '0' '9' b ||
    "*-._%&=+".toList.any fun c => byte c == b

/-- `strings.Index`. -/
def index (sub : List UInt8) : List UInt8 → Option Nat
  | [] => if sub = [] then some 0 else none
  | c :: s => if sub.isPrefixOf (c :: s) then some 0 else (index sub s).map (· + 1)

/-- The loop of `Count`, from what is left of the text. -/
def countFrom (itemID : List UInt8) : Nat → List UInt8 → Nat
  | 0, _ => 0
  | fuel + 1, s =>
    match index docRefPrefix s with
    | none => 0
    | some j =>
      let rest := s.drop (j + docRefPrefix.length)
      (if tokenItemID (rest.takeWhile isTokenByte) = itemID then 1 else 0) +
        countFrom itemID fuel rest

def count (s itemID : List UInt8) : Nat :=
  if itemID = [] then 0 else countFrom itemID s.length s

def matchesToken (token itemID : List UInt8) : Bool :=
  if itemID = [] ∨ ¬ docRefPrefix.isPrefixOf token then false
  else tokenItemID (token.drop docRefPrefix.length) = itemID

/-! ## Where tokens begin -/

/-- A token with the item id begins here. -/
def refersAt (itemID s : List UInt8) : Bool :=
  docRefPrefix.isPrefixOf s &&
    tokenItemID ((s.drop docRefPrefix.length).takeWhile isTokenByte) = itemID

/-- The places of a text at which one begins. -/
def sites (itemID : List UInt8) : List UInt8 → Nat
  | [] => 0
  | c :: s => (refersAt itemID (c :: s)).toNat + sites itemID s

theorem isTokenByte_eq (b : UInt8) : isTokenByte b = inAlphabet b :=
  forall_byte (P := fun b => isTokenByte b = inAlphabet b) (by decide +kernel) b

theorem index_none {sub : List UInt8} (hsub : sub ≠ []) {s : List UInt8} (h : index sub s = none) :
    ∀ k, ¬ sub <+: s.drop k := by
  induction s with
  | nil =>
    intro k hk
    rw [List.drop_nil, List.prefix_nil] at hk
    exact hsub hk
  | cons c s ih =>
    rw [index] at h
    split at h
    · exact nomatch h
    · next hhead =>
      intro k hk
      cases k with
      | zero => exact hhead (List.isPrefixOf_iff_prefix.mpr hk)
      | succ k => exact ih (Option.map_eq_none_iff.mp h) k hk

theorem index_some {sub s : List UInt8} {j : Nat} (h : index sub s = some j) :
    sub <+: s.drop j ∧ ∀ k < j, ¬ sub <+: s.drop k := by
  induction s generalizing j with
  | nil =>
    rw [index] at h
    split at h
    · next hnil =>
      cases h
      exact ⟨hnil ▸ List.nil_prefix, fun k hk => absurd hk (Nat.not_lt_zero k)⟩
    · exact nomatch h
  | cons c s ih =>
    rw [index] at h
    split at h
    · next hhead =>
      cases h
      exact ⟨List.isPrefixOf_iff_prefix.mp hhead, fun k hk => absurd hk (Nat.not_lt_zero k)⟩
    · next hhead =>
      obtain ⟨j', hj', rfl⟩ := Option.map_eq_some_iff.mp h
      obtain ⟨hat, hbefore⟩ := ih hj'
      refine ⟨hat, fun k hk => ?_⟩
      cases k with
      | zero => exact fun hk => hhead (List.isPrefixOf_iff_prefix.mpr hk)
      | succ k => exact hbefore k (Nat.lt_of_succ_lt_succ hk)

theorem refersAt_of_not_prefix {itemID s : List UInt8} (h : ¬ docRefPrefix <+: s) :
    refersAt itemID s = false := by
  have : docRefPrefix.isPrefixOf s = false := by
    rw [Bool.eq_false_iff, ne_eq, List.isPrefixOf_iff_prefix]
    exact h
  rw [refersAt, this, Bool.false_and]

/-- Where no prefix begins there is no token. -/
theorem sites_drop {itemID : List UInt8} (n : Nat) {s : List UInt8}
    (h : ∀ k < n, ¬ docRefPrefix <+: s.drop k) : sites itemID s = sites itemID (s.drop n) := by
  induction n generalizing s with
  | zero => rfl
  | succ n ih =>
    cases s with
    | nil => rfl
    | cons c s =>
      have hhead : ¬ docRefPrefix <+: c :: s := h 0 (Nat.succ_pos n)
      rw [sites, refersAt_of_not_prefix hhead, List.drop_succ_cons,
        ← ih fun k hk => h (k + 1) (Nat.succ_lt_succ hk)]
      exact Nat.zero_add _

/-- No prefix begins inside another: its first byte does not occur again in it. -/
theorem not_prefix_inside {s : List UInt8} (h : docRefPrefix <+: s) {k : Nat} (hk : 0 < k)
    (hlt : k < docRefPrefix.length) : ¬ docRefPrefix <+: s.drop k := by
  intro hinside
  have hfirst : ∀ k < docRefPrefix.length, 0 < k →
      docRefPrefix[k]? ≠ docRefPrefix[0]? := by decide
  refine hfirst k hlt hk ?_
  rw [List.prefix_iff_getElem?] at h hinside
  have h₀ := hinside 0 (by decide)
  rw [List.getElem?_drop, Nat.add_zero, h k hlt] at h₀
  rw [List.getElem?_eq_getElem hlt, List.getElem?_eq_getElem (by decide)]
  exact h₀

/-- A prefix counts once, and the search goes on behind it. -/
theorem sites_of_prefix {itemID s : List UInt8} (h : docRefPrefix <+: s) :
    sites itemID s = (refersAt itemID s).toNat + sites itemID (s.drop docRefPrefix.length) := by
  cases s with
  | nil => exact absurd (List.prefix_nil.mp h) (by decide)
  | cons c s =>
    rw [sites, sites_drop (docRefPrefix.length - 1)]
    · rfl
    · intro k hk
      exact not_prefix_inside h (Nat.succ_pos k) (by omega)

/-- The loop finds them all. -/
theorem countFrom_eq (itemID : List UInt8) (fuel : Nat) :
    ∀ s : List UInt8, s.length ≤ fuel → countFrom itemID fuel s = sites itemID s := by
  induction fuel with
  | zero =>
    intro s hs
    rw [List.length_eq_zero_iff.mp (Nat.le_zero.mp hs)]
    rfl
  | succ fuel ih =>
    intro s hs
    rw [countFrom]
    cases hindex : index docRefPrefix s with
    | none =>
      have hnone := index_none (by decide) hindex
      rw [sites_drop s.length fun k _ => hnone k, List.drop_length]
      rfl
    | some j =>
      obtain ⟨hat, hbefore⟩ := index_some hindex
      have hpre : docRefPrefix.length = 8 := rfl
      have hlen : 0 < (s.drop j).length :=
        Nat.lt_of_lt_of_le (by decide) hat.length_le
      rw [List.length_drop] at hlen
      have hrefers : (refersAt itemID (s.drop j)).toNat =
          if tokenItemID ((s.drop (j + docRefPrefix.length)).takeWhile isTokenByte) = itemID
            then 1 else 0 := by
        rw [refersAt, List.isPrefixOf_iff_prefix.mpr hat, List.drop_drop]
        split <;> next h => simp [h]
      rw [sites_drop j hbefore, sites_of_prefix hat, hrefers, List.drop_drop]
      refine congrArg _ (ih _ ?_)
      rw [List.length_drop]
      omega

theorem count_eq {s itemID : List UInt8} (h : itemID ≠ []) : count s itemID = sites itemID s := by
  rw [count, if_neg h, countFrom_eq _ _ _ (Nat.le_refl _)]

/-- There is a place where there is one at all. -/
theorem exists_of_sites_pos {itemID s : List UInt8} (h : 0 < sites itemID s) :
    ∃ t, t <:+ s ∧ refersAt itemID t = true := by
  induction s with
  | nil => exact absurd h (Nat.lt_irrefl 0)
  | cons c s ih =>
    by_cases hhead : refersAt itemID (c :: s) = true
    · exact ⟨_, List.suffix_rfl, hhead⟩
    · rw [sites, Bool.eq_false_iff.mpr hhead] at h
      obtain ⟨t, ht, hrefers⟩ := ih (Nat.zero_add (sites itemID s) ▸ h)
      exact ⟨t, ht.trans (List.suffix_cons c s), hrefers⟩

/-- A text with a reference has a token for it somewhere. -/
theorem exists_matchesToken {s itemID : List UInt8} (h : 0 < count s itemID) :
    ∃ token, token <:+: s ∧ matchesToken token itemID = true := by
  by_cases hid : itemID = []
  · rw [count, if_pos hid] at h
    exact absurd h (Nat.lt_irrefl 0)
  rw [count_eq hid] at h
  obtain ⟨t, ht, hrefers⟩ := exists_of_sites_pos h
  obtain ⟨hat, hitem⟩ := (Bool.and_eq_true _ _).mp hrefers
  let q := (t.drop docRefPrefix.length).takeWhile isTokenByte
  have hsplit : docRefPrefix ++ q <+: t := by
    obtain ⟨u, rfl⟩ := List.isPrefixOf_iff_prefix.mp hat
    simp only [q, List.drop_left]
    exact (List.prefix_append_right_inj _).mpr (List.takeWhile_prefix _)
  refine ⟨docRefPrefix ++ q, hsplit.isInfix.trans ht.isInfix, ?_⟩
  have hpre : docRefPrefix.isPrefixOf (docRefPrefix ++ q) = true :=
    List.isPrefixOf_iff_prefix.mpr (List.prefix_append ..)
  rw [matchesToken, if_neg (by simp [hid, hpre]), List.drop_left]
  exact hitem

/-- A token with the first letter of the last segment escaped. -/
def escapedToken : List UInt8 := "fls:doc?hubId=b.1&itemId=urn%3Aadsk%3A%41bc".toList.map byte

end FusionLocalServer.DocRef
