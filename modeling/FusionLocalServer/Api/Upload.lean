import FusionLocalServer.Lib.Ranges

/-!
# The parts of an upload (`api/upload.go`)

A file goes up in parts of 64 MiB, and one that would need more than 25 of these in 25 larger parts.
Sizes and offsets are 64-bit integers that wrap.

`sentRanges_spec`: the ranges that are sent tile the file.
-/

namespace FusionLocalServer.Api.Upload

open Lib

def ossPartSize : Int64 := (64 : Int64) <<< (20 : Int64)

def ossMaxParts : Int64 := 25

/-- The size of a part and the number of parts. -/
def ossPartPlan (size : Int64) : Int64 × Int64 :=
  let partSize := ossPartSize
  if size ≤ partSize then (partSize, 1)
  else
    let parts := (size + partSize - 1) / partSize
    if parts > ossMaxParts then
      let parts := ossMaxParts
      ((size + parts - 1) / parts, parts)
    else (partSize, parts)

/-- The offset and the length of a part. -/
def partRange (size partSize : Int64) (i : Nat) : Int64 × Int64 :=
  let off := Int64.ofNat i * partSize
  (off, if partSize ≤ size - off then partSize else size - off)

/-- The ranges of the loop of `uploadToOSSStream`. -/
def sentRanges (size : Int64) : List (Int64 × Int64) :=
  let (partSize, parts) := ossPartPlan size
  (List.range parts.toInt.toNat).map (partRange size partSize)

/-- The bytes of a part (`io.NewSectionReader`). -/
def partBody (src : List UInt8) (r : Int64 × Int64) : List UInt8 :=
  (src.drop r.1.toInt.toNat).take r.2.toInt.toNat

/-! ## Sums and products that do not wrap -/

theorem toInt_add_of_lt {a b : Int64} (ha : 0 ≤ a.toInt) (hb : 0 ≤ b.toInt)
    (h : a.toInt + b.toInt < 2 ^ 63) : (a + b).toInt = a.toInt + b.toInt := by
  rw [Int64.toInt_add]
  exact Int.bmod_eq_of_le (by omega) (by omega)

theorem toInt_sub_of_nonneg {a b : Int64} (ha : 0 ≤ a.toInt) (hb : 0 ≤ b.toInt) :
    (a - b).toInt = a.toInt - b.toInt := by
  have := a.toInt_lt
  have := b.toInt_lt
  rw [Int64.toInt_sub]
  exact Int.bmod_eq_of_le (by omega) (by omega)

theorem toInt_mul_of_lt {a b : Int64} (hlo : 0 ≤ a.toInt * b.toInt)
    (h : a.toInt * b.toInt < 2 ^ 63) : (a * b).toInt = a.toInt * b.toInt := by
  rw [Int64.toInt_mul]
  exact Int.bmod_eq_of_le (by omega) (by omega)

theorem toInt_div_of_nonneg {a b : Int64} (ha : 0 ≤ a.toInt) :
    (a / b).toInt = a.toInt / b.toInt := by
  have hmin : a ≠ Int64.minValue := by
    rintro rfl
    exact absurd ha (by decide)
  rw [Int64.toInt_div_of_ne_left a b hmin, Int.tdiv_eq_ediv_of_nonneg ha]

theorem toInt_ossPartSize : ossPartSize.toInt = 67108864 := by decide

theorem toInt_ossMaxParts : ossMaxParts.toInt = 25 := by decide

/-! ## The plan -/

/-- Some parts of one size, the last of which begins before the end of the file, reach its end. -/
structure Covers (size partSize : Int64) (k : Nat) : Prop where
  pos : 0 < partSize.toInt
  last : k * partSize.toInt < size.toInt ∨ k = 0 ∧ size.toInt = 0
  all : size.toInt ≤ (k + 1) * partSize.toInt

/-- Rounding up finds the parts, and rounding up the size of a part for too many of them leaves none
without bytes. -/
theorem ossPartPlan_spec {size : Int64} (hsize : 0 ≤ size.toInt)
    (hfits : size.toInt + ossPartSize.toInt < 2 ^ 63) :
    ∃ k : Nat, k < 25 ∧ (ossPartPlan size).2.toInt = k + 1 ∧
      Covers size (ossPartPlan size).1 k := by
  have hpart := toInt_ossPartSize
  have hmax := toInt_ossMaxParts
  have hone : (1 : Int64).toInt = 1 := rfl
  have hround : ∀ {p : Int64}, 1 ≤ p.toInt → p.toInt ≤ ossPartSize.toInt →
      ((size + p - 1) / p).toInt = (size.toInt + p.toInt - 1) / p.toInt := by
    intro p hp hle
    have hsum : (size + p).toInt = size.toInt + p.toInt :=
      toInt_add_of_lt hsize (by omega) (by omega)
    have hdiff : (size + p - 1).toInt = size.toInt + p.toInt - 1 := by
      rw [toInt_sub_of_nonneg (by omega) (by decide), hsum, hone]
    rw [toInt_div_of_nonneg (by omega), hdiff]
  unfold ossPartPlan
  dsimp only
  split
  · next hsmall =>
    have hsmall := Int64.le_iff_toInt_le.mp hsmall
    refine ⟨0, by decide, rfl, ?_⟩
    constructor <;> dsimp only <;> omega
  · next hlarge =>
    have hlarge : ¬ size.toInt ≤ ossPartSize.toInt := fun h =>
      hlarge (Int64.le_iff_toInt_le.mpr h)
    have hparts := hround (p := ossPartSize) (by omega) (by omega)
    split
    · next hmany =>
      have hmany := Int64.lt_iff_toInt_lt.mp hmany
      have hgrown := hround (p := ossMaxParts) (by omega) (by omega)
      rw [hparts, hmax, hpart] at hmany
      refine ⟨24, by decide, hmax, ?_⟩
      rw [hmax] at hgrown
      constructor <;> dsimp only <;> rw [hgrown] <;> omega
    · next hfew =>
      have hfew : ¬ ossMaxParts.toInt < ((size + ossPartSize - 1) / ossPartSize).toInt := fun h =>
        hfew (Int64.lt_iff_toInt_lt.mpr h)
      rw [hparts, hmax, hpart] at hfew
      rw [hpart] at hparts hlarge
      refine ⟨((size.toInt + 67108864 - 1) / 67108864 - 1).toNat, by omega, ?_, ?_⟩
      · dsimp only
        rw [hparts]
        omega
      · constructor <;> dsimp only <;> rw [hpart] <;> omega

/-- No offset is too large. -/
theorem toInt_partRange {size partSize : Int64} {k i : Nat} (h : Covers size partSize k)
    (hk : k < 25) (hi : i < k + 1) :
    (partRange size partSize i).1.toInt = i * partSize.toInt ∧
      (partRange size partSize i).2.toInt = min partSize.toInt (size.toInt - i * partSize.toInt) ∧
      i * partSize.toInt ≤ size.toInt := by
  have hpos := h.pos
  have hmax := size.toInt_lt
  have hle : (i : Int) * partSize.toInt ≤ k * partSize.toInt :=
    Int.mul_le_mul_of_nonneg_right (by omega) hpos.le
  have hnonneg : 0 ≤ (i : Int) * partSize.toInt := Int.mul_nonneg (by omega) hpos.le
  have hlast : (k : Int) * partSize.toInt ≤ size.toInt := by
    rcases h.last with hlast | ⟨rfl, hzero⟩
    · exact hlast.le
    · simp [hzero]
  have hindex : (Int64.ofNat i).toInt = i := Int64.toInt_ofNat_of_lt (by omega)
  have hoff : (Int64.ofNat i * partSize).toInt = i * partSize.toInt := by
    rw [toInt_mul_of_lt, hindex] <;> rw [hindex] <;> omega
  have hrest : (size - Int64.ofNat i * partSize).toInt = size.toInt - i * partSize.toInt := by
    rw [toInt_sub_of_nonneg (by omega) (by omega), hoff]
  refine ⟨hoff, ?_, by omega⟩
  unfold partRange
  dsimp only
  split
  · next hfull =>
    have hfull := Int64.le_iff_toInt_le.mp hfull
    omega
  · next hshort =>
    have hshort : ¬ partSize.toInt ≤ (size - Int64.ofNat i * partSize).toInt := fun h =>
      hshort (Int64.le_iff_toInt_le.mpr h)
    omega

theorem sentRanges_eq (size : Int64) : sentRanges size =
    (List.range (ossPartPlan size).2.toInt.toNat).map (partRange size (ossPartPlan size).1) := rfl

/-- A range of 64-bit integers as one of integers. -/
def toRange (r : Int64 × Int64) : Int × Int := (r.1.toInt, r.2.toInt)

theorem tiles_sentRanges {size : Int64} (hsize : 0 ≤ size.toInt)
    (hfits : size.toInt + ossPartSize.toInt < 2 ^ 63) :
    Tiles 0 size.toInt ((sentRanges size).map toRange) := by
  obtain ⟨k, hk, hparts, hcovers⟩ := ossPartPlan_spec hsize hfits
  have hcount : (ossPartPlan size).2.toInt.toNat = k + 1 := by omega
  rw [sentRanges_eq, hcount, List.map_map]
  refine tiles_parts hcovers.pos.le (fun i hi => ?_) ?_ hcovers.all
  · obtain ⟨hoff, hlen, -⟩ := toInt_partRange hcovers hk hi
    exact Prod.ext hoff hlen
  · exact (toInt_partRange hcovers hk (Nat.lt_succ_self k)).2.2

/-- **The ranges sent are the file**, in at most 25 parts that follow one another, none of them empty
but for the one of an empty file. -/
theorem sentRanges_spec (size : Int64) (hsize : 0 ≤ size.toInt)
    (hfits : size.toInt + ossPartSize.toInt < 2 ^ 63) :
    (1 ≤ (ossPartPlan size).2.toInt ∧ (ossPartPlan size).2.toInt ≤ ossMaxParts.toInt) ∧
      (sentRanges size).length = (ossPartPlan size).2.toInt ∧
      Tiles 0 size.toInt ((sentRanges size).map toRange) ∧
      (∀ r ∈ sentRanges size, 0 ≤ r.2.toInt ∧ (0 < size.toInt → 0 < r.2.toInt)) ∧
      ∀ src : List UInt8, (src.length : Int) = size.toInt →
        (sentRanges size).flatMap (partBody src) = src := by
  obtain ⟨k, hk, hparts, hcovers⟩ := ossPartPlan_spec hsize hfits
  have htiles := tiles_sentRanges hsize hfits
  have hmax := toInt_ossMaxParts
  refine ⟨by omega, ?_, htiles, ?_, ?_⟩
  · rw [sentRanges_eq, List.length_map, List.length_range]
    omega
  · intro r hr
    rw [sentRanges_eq] at hr
    obtain ⟨i, hi, rfl⟩ := List.mem_map.mp hr
    have hi : i < k + 1 := by
      have := List.mem_range.mp hi
      omega
    obtain ⟨-, hlen, hle⟩ := toInt_partRange hcovers hk hi
    have hpos := hcovers.pos
    have hbefore : (i : Int) * (ossPartPlan size).1.toInt ≤ k * (ossPartPlan size).1.toInt :=
      Int.mul_le_mul_of_nonneg_right (by omega) hpos.le
    rw [hlen]
    refine ⟨le_min hpos.le (by omega), fun hsome => lt_min hpos ?_⟩
    rcases hcovers.last with hlast | ⟨-, hzero⟩
    · omega
    · omega
  · intro src hlen
    have hall := htiles.flatMap (Int.le_refl 0) src
    rw [List.flatMap_map] at hall
    refine Eq.trans ?_ (hall.trans ?_)
    · rfl
    have hlong : src.length ≤ (size.toInt - 0).toNat := by omega
    exact List.take_of_length_le hlong

/-- A file of 25 parts and a byte. -/
theorem sentRanges_spec_overMax :
    (0 : Int) ≤ (1677721601 : Int64).toInt ∧
      Tiles 0 (1677721601 : Int64).toInt ((sentRanges 1677721601).map toRange) :=
  ⟨by decide, (sentRanges_spec 1677721601 (by decide) (by decide)).2.2.1⟩

end FusionLocalServer.Api.Upload
