/- source: none
  digest: Adding the targets of triggered rules until nothing changes gives the least closed set. -/

import Mathlib.Data.List.Nodup
import Mathlib.Tactic.Common

namespace BackImage.Lib.Saturate

variable {α : Type} [DecidableEq α]

/-- A rule adds its target to a set that holds its trigger. -/
structure Rule (α : Type) where
 trigger : α
 target : α

/-- One rule: whether it changed the set, and the set. -/
def apply (known : List α) (r : Rule α) : List α :=
 if r.trigger ∈ known ∧ r.target ∉ known then r.target :: known else known

/-- One pass over the rules; a later rule sees what an earlier one added. -/
def pass (rules : List (Rule α)) (known : List α) : List α := rules.foldl apply known

/-- Passes until one changes nothing. -/
def saturate (rules : List (Rule α)) : Nat → List α → List α
 | 0, known => known
 | fuel + 1, known =>
  if (pass rules known).length = known.length then known
  else saturate rules fuel (pass rules known)

/-- Closed under the rules. -/
def Closed (rules : List (Rule α)) (s : α → Prop) : Prop :=
 ∀ r ∈ rules, s r.trigger → s r.target

theorem apply_suffix (known : List α) (r : Rule α) : known <:+ apply known r := by
 unfold apply
 split
 · exact List.suffix_cons _ _
 · exact List.suffix_refl _

theorem pass_suffix (rules : List (Rule α)) (known : List α) : known <:+ pass rules known := by
 induction rules generalizing known with
 | nil => exact List.suffix_refl _
 | cons r rules ih => exact (apply_suffix known r).trans (ih (apply known r))

variable {rules : List (Rule α)} {known : List α}

theorem closed_of_pass_length (stable : (pass rules known).length = known.length) :
  Closed rules (· ∈ known) := by
 induction rules with
 | nil =>
  intro r member
  cases member
 | cons r rules ih =>
  have first := (apply_suffix known r).length_le
  have rest := (pass_suffix rules (apply known r)).length_le
  have whole : pass (r :: rules) known = pass rules (apply known r) := rfl
  rw [whole] at stable
  have same : apply known r = known :=
   ((apply_suffix known r).eq_of_length (by omega)).symm
  intro r' member triggered
  rcases List.mem_cons.mp member with rfl | later
  · by_contra missing
    have grown : apply known r' = r'.target :: known := if_pos ⟨triggered, missing⟩
    rw [grown] at same
    exact absurd (congrArg List.length same) (by simp)
  · rw [same] at stable
    exact ih stable r' later triggered

/-- Whatever closed set holds the start holds every pass. -/
theorem pass_least {s : α → Prop}
  (closed : Closed rules s) (start : ∀ a ∈ known, s a) : ∀ a ∈ pass rules known, s a := by
 induction rules generalizing known with
 | nil => exact start
 | cons r rules ih =>
  refine ih (fun r' member => closed r' (List.mem_cons_of_mem r member)) ?_
  intro a member
  unfold apply at member
  split at member
  · rename_i fires
    rcases List.mem_cons.mp member with rfl | old
    · exact closed r List.mem_cons_self (start r.trigger fires.1)
    · exact start a old
  · exact start a member

theorem saturate_suffix (rules : List (Rule α)) (fuel : Nat) (known : List α) :
  known <:+ saturate rules fuel known := by
 induction fuel generalizing known with
 | zero => exact List.suffix_refl _
 | succ fuel ih =>
  rw [saturate]
  split
  · exact List.suffix_refl _
  · exact (pass_suffix rules known).trans (ih _)

variable {fuel : Nat}

theorem saturate_least {s : α → Prop}
  (closed : Closed rules s) (start : ∀ a ∈ known, s a) : ∀ a ∈ saturate rules fuel known, s a := by
 induction fuel generalizing known with
 | zero => exact start
 | succ fuel ih =>
  rw [saturate]
  split
  · exact start
  · exact ih (pass_least closed start)

/-- The targets that are still missing. -/
def missing (rules : List (Rule α)) (known : List α) : List (Rule α) :=
 rules.filter fun r => r.target ∉ known

theorem exists_added (grows : (pass rules known).length ≠ known.length) :
  ∃ r ∈ rules, r.target ∉ known ∧ r.target ∈ pass rules known := by
 induction rules generalizing known with
 | nil => exact absurd rfl grows
 | cons r rules ih =>
  by_cases fires : r.trigger ∈ known ∧ r.target ∉ known
  · have grown : apply known r = r.target :: known := if_pos fires
    refine ⟨r, List.mem_cons_self, fires.2, (pass_suffix rules (apply known r)).subset ?_⟩
    rw [grown]
    exact List.mem_cons_self
  · have same : apply known r = known := if_neg fires
    have whole : pass (r :: rules) known = pass rules known := congrArg (pass rules) same
    rw [whole] at grows ⊢
    obtain ⟨r', member, absent, added⟩ := ih grows
    exact ⟨r', List.mem_cons_of_mem r member, absent, added⟩

theorem missing_pass_lt (grows : (pass rules known).length ≠ known.length) :
  (missing rules (pass rules known)).length < (missing rules known).length := by
 obtain ⟨r, member, absent, added⟩ := exists_added grows
 have narrower : missing rules (pass rules known) =
   (missing rules known).filter fun r => r.target ∉ pass rules known := by
  rw [missing, missing, List.filter_filter]
  apply List.filter_congr
  intro r' _
  have kept : r'.target ∈ known → r'.target ∈ pass rules known :=
   fun old => (pass_suffix rules known).subset old
  by_cases present : r'.target ∈ pass rules known
  · simp [present]
  · have before : r'.target ∉ known := fun old => present (kept old)
    simp [present, before]
 rw [narrower, List.length_filter_lt_length_iff_exists]
 exact ⟨r, List.mem_filter.mpr ⟨member, by simpa using absent⟩, by simpa using added⟩

theorem saturate_closed
  (enough : (missing rules known).length < fuel) :
  Closed rules (· ∈ saturate rules fuel known) := by
 induction fuel generalizing known with
 | zero => omega
 | succ fuel ih =>
  rw [saturate]
  by_cases stable : (pass rules known).length = known.length
  · rw [if_pos stable]
    exact closed_of_pass_length stable
  · rw [if_neg stable]
    have fewer := missing_pass_lt stable
    exact ih (by omega)

theorem saturate_eq {more : Nat}
  (enough : (missing rules known).length < fuel) (enough' : (missing rules known).length < more) :
  saturate rules fuel known = saturate rules more known := by
 induction fuel generalizing more known with
 | zero => omega
 | succ fuel ih =>
  cases more with
  | zero => omega
  | succ more =>
   rw [saturate, saturate]
   by_cases stable : (pass rules known).length = known.length
   · rw [if_pos stable, if_pos stable]
   · rw [if_neg stable, if_neg stable]
     have fewer := missing_pass_lt stable
     exact ih (by omega) (by omega)

theorem length_missing_le (rules : List (Rule α)) (known : List α) :
  (missing rules known).length ≤ rules.length :=
 List.length_filter_le _ _

end BackImage.Lib.Saturate
