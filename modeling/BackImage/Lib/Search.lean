/- source: none
  digest: Binary search finds a boundary of any predicate, monotone or not. -/

import Mathlib.Tactic.Common

namespace BackImage.Lib.Search

/-- The halving loop of `sort.Search` on `[i, j)`. -/
def halve (f : Nat → Bool) : Nat → Nat → Nat → Nat
 | 0, i, _ => i
 | fuel + 1, i, j =>
  if i < j then
   let h := (i + j) / 2
   if f h then halve f fuel i h else halve f fuel (h + 1) j
  else i

def search (n : Nat) (f : Nat → Bool) : Nat := halve f n 0 n

theorem halve_spec {n : Nat} {f : Nat → Bool} {fuel i j : Nat} (ordered : i ≤ j) (inside : j ≤ n)
  (enough : j - i ≤ fuel) (below : i = 0 ∨ f (i - 1) = false) (above : j = n ∨ f j = true) :
  halve f fuel i j ≤ n ∧ (halve f fuel i j = n ∨ f (halve f fuel i j) = true) ∧
   (halve f fuel i j = 0 ∨ f (halve f fuel i j - 1) = false) := by
 induction fuel generalizing i j with
 | zero =>
  have same : i = j := by omega
  subst same
  exact ⟨inside, above, below⟩
 | succ fuel ih =>
  rw [halve]
  by_cases room : i < j
  · rw [if_pos room]
    by_cases holds : f ((i + j) / 2) = true
    · simp only [holds, if_true]
      exact ih (by omega) (by omega) (by omega) below (.inr holds)
    · simp only [holds, if_false, Bool.false_eq_true]
      refine ih (by omega) inside (by omega) (.inr ?_) above
      rw [Nat.add_sub_cancel]
      exact Bool.eq_false_iff.mpr holds
  · rw [if_neg room]
    have same : i = j := by omega
    subst same
    exact ⟨inside, above, below⟩

theorem search_spec (n : Nat) (f : Nat → Bool) : search n f ≤ n ∧
  (search n f = n ∨ f (search n f) = true) ∧
   (search n f = 0 ∨ f (search n f - 1) = false) :=
 halve_spec (Nat.zero_le n) (Nat.le_refl n) (by omega) (.inl rfl) (.inl rfl)

theorem search_lt {n : Nat} {f : Nat → Bool} (some_at : 0 < n) (last : f (n - 1) = true) :
  search n f < n := by
 obtain ⟨inside, -, below⟩ := search_spec n f
 rcases Nat.lt_or_ge (search n f) n with less | reached
 · exact less
 · have equal : search n f = n := by omega
   rw [equal] at below
   rcases below with none_left | fails
   · omega
   · rw [last] at fails
     cases fails

end BackImage.Lib.Search
