/- source: none
  digest: Signed 64-bit sums read back as integers, with and without wraparound. -/

import Mathlib.Algebra.BigOperators.Group.List.Basic
import Mathlib.Tactic.Linarith

namespace BackImage.Lib.Wrap

/-- One past the largest signed 64-bit value. -/
def bound : Int := 9223372036854775808

/-- The integer is a signed 64-bit value. -/
def Fits (x : Int) : Prop := -bound ≤ x ∧ x < bound

instance (x : Int) : Decidable (Fits x) := inferInstanceAs (Decidable (_ ∧ _))

theorem toInt_fits (a : Int64) : Fits a.toInt := by
 have low := a.le_toInt
 have high := a.toInt_lt
 unfold Fits bound
 omega

theorem toInt_add_of_fits {a b : Int64} (fits : Fits (a.toInt + b.toInt)) :
  (a + b).toInt = a.toInt + b.toInt := by
 rw [Int64.toInt_add]
 apply Int.bmod_eq_of_le
 · have low := fits.1
   unfold bound at low
   omega
 · have high := fits.2
   unfold bound at high
   omega

theorem toInt_sub_of_fits {a b : Int64} (fits : Fits (a.toInt - b.toInt)) :
  (a - b).toInt = a.toInt - b.toInt := by
 rw [Int64.toInt_sub]
 apply Int.bmod_eq_of_le
 · have low := fits.1
   unfold bound at low
   omega
 · have high := fits.2
   unfold bound at high
   omega

theorem toInt_min (a b : Int64) : (if a < b then a else b).toInt = min a.toInt b.toInt := by
 by_cases less : a < b
 · rw [if_pos less]
   rw [Int64.lt_iff_toInt_lt] at less
   omega
 · rw [if_neg less]
   rw [Int64.lt_iff_toInt_lt] at less
   omega

theorem toInt_max (a b : Int64) : (if a < b then b else a).toInt = max a.toInt b.toInt := by
 by_cases less : a < b
 · rw [if_pos less]
   rw [Int64.lt_iff_toInt_lt] at less
   omega
 · rw [if_neg less]
   rw [Int64.lt_iff_toInt_lt] at less
   omega

theorem toInt_ofNat_of_lt {n : Nat} (small : (n : Int) < bound) : (Int64.ofNat n).toInt = n := by
 have size : Int64.size = 18446744073709551616 := rfl
 unfold bound at small
 rw [Int64.toInt_ofNat', size]
 apply Int.bmod_eq_of_le <;> omega

theorem ofNat_lt_ofNat {a b : Nat} (small : (b : Int) < bound) (less : a < b) :
  Int64.ofNat a < Int64.ofNat b := by
 rw [Int64.lt_iff_toInt_lt, toInt_ofNat_of_lt small, toInt_ofNat_of_lt (by omega)]
 omega

theorem add_lt_bound_of_grows {start step : Nat} (small : (start : Int) < bound)
  (turn : (step : Int) < 2 * bound) (nonneg : 0 ≤ Int64.ofNat (start + step))
  (grows : Int64.ofNat start < Int64.ofNat (start + step)) :
  ((start + step : Nat) : Int) < bound := by
 have zero := Int64.toInt_zero
 have size : Int64.size = 18446744073709551616 := rfl
 rw [Int64.lt_iff_toInt_lt, toInt_ofNat_of_lt small, Int64.toInt_ofNat', size,
  Int.bmod_def] at grows
 rw [Int64.le_iff_toInt_le, zero, Int64.toInt_ofNat', size, Int.bmod_def] at nonneg
 unfold bound at *
 split at nonneg <;> omega

theorem and_not_ones {width : Nat} (x : BitVec width) (k : Nat) :
  x &&& ~~~(BitVec.ofNat width (2 ^ k - 1)) = (x >>> k) <<< k := by
 apply BitVec.eq_of_getLsbD_eq
 intro i small
 rw [BitVec.getLsbD_and, BitVec.getLsbD_not, BitVec.getLsbD_ofNat, Nat.testBit_two_pow_sub_one,
  BitVec.getLsbD_shiftLeft, BitVec.getLsbD_ushiftRight]
 by_cases low : i < k
 · simp [small, low]
 · have back : k + (i - k) = i := by omega
   simp [small, low, back]

/-- The wrapping sum of a list, accumulated from the left as a loop does. -/
def wrapSum (start : Int64) (xs : List Int64) : Int64 := xs.foldl (· + ·) start

/-- The sum of the same list over the integers. -/
def exactSum (xs : List Int64) : Int := (xs.map Int64.toInt).sum

@[simp] theorem wrapSum_nil (start : Int64) : wrapSum start [] = start := rfl

@[simp] theorem wrapSum_cons (start x : Int64) (xs : List Int64) :
  wrapSum start (x :: xs) = wrapSum (start + x) xs := rfl

theorem wrapSum_append (start : Int64) (xs ys : List Int64) :
  wrapSum start (xs ++ ys) = wrapSum (wrapSum start xs) ys :=
 List.foldl_append

@[simp] theorem exactSum_nil : exactSum [] = 0 := rfl

@[simp] theorem exactSum_cons (x : Int64) (xs : List Int64) :
  exactSum (x :: xs) = x.toInt + exactSum xs := by
 simp [exactSum]

theorem exactSum_append (xs ys : List Int64) : exactSum (xs ++ ys) = exactSum xs + exactSum ys := by
 simp [exactSum]

theorem exactSum_nonneg {xs : List Int64} (nonneg : ∀ x ∈ xs, 0 ≤ x.toInt) : 0 ≤ exactSum xs := by
 induction xs with
 | nil => simp
 | cons x xs ih =>
  have head := nonneg x List.mem_cons_self
  have tail := ih fun y hy => nonneg y (List.mem_cons_of_mem x hy)
  rw [exactSum_cons]
  omega

theorem wrapSum_toInt {start : Int64} {xs : List Int64} (hstart : 0 ≤ start.toInt)
  (nonneg : ∀ x ∈ xs, 0 ≤ x.toInt) (fits : start.toInt + exactSum xs < bound) :
  (wrapSum start xs).toInt = start.toInt + exactSum xs := by
 induction xs generalizing start with
 | nil => simp
 | cons x xs ih =>
  have head := nonneg x List.mem_cons_self
  have tail : ∀ y ∈ xs, 0 ≤ y.toInt := fun y hy => nonneg y (List.mem_cons_of_mem x hy)
  have rest := exactSum_nonneg tail
  rw [exactSum_cons] at fits
  have step : (start + x).toInt = start.toInt + x.toInt := by
   apply toInt_add_of_fits
   constructor <;> unfold bound at * <;> omega
  rw [wrapSum_cons, ih (by omega) tail (by omega), exactSum_cons]
  omega

end BackImage.Lib.Wrap
