/- source: none
  digest: A list cut into consecutive groups, at rest and while its items arrive. -/

import Mathlib.Algebra.BigOperators.Group.List.Basic
import Mathlib.Algebra.Ring.Nat
import Mathlib.Data.List.Induction
import Mathlib.Order.Monotone.Basic
import Mathlib.Algebra.Order.Group.Nat

namespace BackImage.Lib.Cut

variable {α : Type*}

/-- The position at which group `j` starts in the concatenation. -/
def start (groups : List (List α)) (j : Nat) : Nat := ((groups.take j).map List.length).sum

@[simp] theorem start_zero (groups : List (List α)) : start groups 0 = 0 := by
 simp [start]

@[simp] theorem start_cons_succ (g : List α) (groups : List (List α)) (j : Nat) :
  start (g :: groups) (j + 1) = g.length + start groups j := by
 simp [start]

variable {groups : List (List α)} {j : Nat} {g : List α}

theorem start_succ (at_j : groups[j]? = some g) :
  start groups (j + 1) = start groups j + g.length := by
 induction groups generalizing j with
 | nil => simp at at_j
 | cons h groups ih =>
  cases j with
  | zero =>
   have same : h = g := by simpa using at_j
   simp [same]
  | succ j =>
   have step := ih (by simpa using at_j)
   rw [start_cons_succ, start_cons_succ, step]
   omega

theorem start_mono (groups : List (List α)) : Monotone (start groups) := by
 apply monotone_nat_of_le_succ
 intro j
 cases found : groups[j]? with
 | none =>
  have short : groups.length ≤ j := List.getElem?_eq_none_iff.mp found
  simp [start, List.take_of_length_le short, List.take_of_length_le (Nat.le_succ_of_le short)]
 | some g =>
  rw [start_succ found]
  omega

theorem existsUnique_group {k : Nat} (inside : k < groups.flatten.length) :
  ∃! j, j < groups.length ∧ start groups j ≤ k ∧ k < start groups (j + 1) := by
 have found : ∃ j, j < groups.length ∧ start groups j ≤ k ∧ k < start groups (j + 1) := by
  induction groups generalizing k with
  | nil => simp at inside
  | cons g groups ih =>
   by_cases early : k < g.length
   · exact ⟨0, by simp, by simp, by simpa using early⟩
   · have rest : k - g.length < groups.flatten.length := by
      simp only [List.flatten_cons, List.length_append] at inside
      omega
     obtain ⟨j, bound, low, high⟩ := ih rest
     refine ⟨j + 1, by simpa using bound, ?_, ?_⟩
     · rw [start_cons_succ]
       omega
     · rw [start_cons_succ]
       omega
 obtain ⟨j, bound, low, high⟩ := found
 refine ⟨j, ⟨bound, low, high⟩, ?_⟩
 rintro i ⟨-, low', high'⟩
 rcases lt_trichotomy i j with less | same | greater
 · have := start_mono groups (show i + 1 ≤ j from less)
   omega
 · exact same
 · have := start_mono groups (show j + 1 ≤ i from greater)
   omega

theorem flatten_eq_append (at_j : groups[j]? = some g) :
  ∃ before after, groups.flatten = before ++ g ++ after ∧ before.length = start groups j ∧
   before = (groups.take j).flatten ∧ after = (groups.drop (j + 1)).flatten := by
 have bound : j < groups.length := (List.getElem?_eq_some_iff.mp at_j).1
 have value : groups[j] = g := (List.getElem?_eq_some_iff.mp at_j).2
 refine ⟨(groups.take j).flatten, (groups.drop (j + 1)).flatten, ?_, ?_, rfl, rfl⟩
 · conv_lhs => rw [← List.take_append_drop j groups]
   rw [List.drop_eq_getElem_cons bound, value]
   simp
 · simp [start, List.length_flatten]

theorem flatten_get_iff {k : Nat} {x : α} : groups.flatten[k]? = some x ↔
   ∃ j r g, groups[j]? = some g ∧ g[r]? = some x ∧ k = start groups j + r := by
 constructor
 · intro found
   obtain ⟨inside, -⟩ := List.getElem?_eq_some_iff.mp found
   obtain ⟨j, ⟨short, low, high⟩, -⟩ := existsUnique_group inside
   have at_j : groups[j]? = some groups[j] := List.getElem?_eq_getElem short
   obtain ⟨before, after, split, size, -, -⟩ := flatten_eq_append at_j
   rw [start_succ at_j] at high
   refine ⟨j, k - start groups j, groups[j], at_j, ?_, by omega⟩
   rwa [split, List.append_assoc, List.getElem?_append_right (by omega), size,
    List.getElem?_append_left (by omega)] at found
 · rintro ⟨j, r, g, at_j, at_r, rfl⟩
   obtain ⟨before, after, split, size, -, -⟩ := flatten_eq_append at_j
   have inside : r < g.length := (List.getElem?_eq_some_iff.mp at_r).1
   rw [split, ← size, List.append_assoc, List.getElem?_append_right (by omega),
    Nat.add_sub_cancel_left,
    List.getElem?_append_left inside]
   exact at_r

def slice (xs : List α) (a b : Nat) : List α := (xs.drop a).take (b - a)

theorem slice_append (xs : List α) {a b c : Nat} (low : a ≤ b) (high : b ≤ c) :
  slice xs a b ++ slice xs b c = slice xs a c := by
 have shift : xs.drop b = (xs.drop a).drop (b - a) := by
  rw [List.drop_drop]
  congr 1
  omega
 have total : c - a = (b - a) + (c - b) := by omega
 rw [slice, slice, slice, shift, total, List.take_add]

@[simp] theorem slice_self (xs : List α) (a : Nat) : slice xs a a = [] := by
 simp [slice]

theorem slice_flatten {a b : Nat}
  (at_j : groups[j]? = some g) (low : start groups j ≤ a) (high : b ≤ start groups (j + 1)) :
  slice groups.flatten a b = (g.drop (a - start groups j)).take (b - a) := by
 obtain ⟨before, after, whole, size, -, -⟩ := flatten_eq_append at_j
 rw [start_succ at_j] at high
 have skipped : before.drop a = [] := List.drop_eq_nil_of_le (by omega)
 rw [slice, whole, List.append_assoc, List.drop_append, skipped, List.nil_append, size,
  List.drop_append, List.take_append_of_le_length]
 rw [List.length_drop]
 omega

/-- The groups closed so far and the group being filled. -/
structure Cutting (α : Type*) where
 closed : List (List α)
 filling : List α

/-- When to close: the groups closed before, and the group that would close. -/
abbrev Rule (α : Type*) := List (List α) → List α → Bool

namespace Cutting

def empty : Cutting α := ⟨[], []⟩

def items (c : Cutting α) : List α := c.closed.flatten ++ c.filling

def push (c : Cutting α) (x : α) : Cutting α := ⟨c.closed, c.filling ++ [x]⟩

/-- Close the group being filled, if it holds anything. -/
def close (c : Cutting α) : Cutting α :=
 if c.filling.isEmpty then c else ⟨c.closed ++ [c.filling], []⟩

/-- One item arrives. -/
def step (rule : Rule α) (c : Cutting α) (x : α) : Cutting α :=
 if rule c.closed (c.filling ++ [x]) then (c.push x).close else c.push x

@[simp] theorem items_push (c : Cutting α) (x : α) : (c.push x).items = c.items ++ [x] := by
 simp [items, push]

@[simp] theorem items_close (c : Cutting α) : c.close.items = c.items := by
 unfold close
 by_cases nothing : c.filling.isEmpty
 · rw [if_pos nothing]
 · rw [if_neg nothing]
   simp [items]

theorem close_filling (c : Cutting α) : c.close.filling = [] := by
 unfold close
 by_cases nothing : c.filling.isEmpty
 · rw [if_pos nothing]
   exact List.isEmpty_iff.mp nothing
 · rw [if_neg nothing]

variable {c : Cutting α}

theorem close_of_ne_nil (filled : c.filling ≠ []) : c.close = ⟨c.closed ++ [c.filling], []⟩ := by
 unfold close
 rw [if_neg (by simpa using filled)]

@[simp] theorem items_step (rule : Rule α) (c : Cutting α) (x : α) :
  (c.step rule x).items = c.items ++ [x] := by
 unfold step
 by_cases closes : rule c.closed (c.filling ++ [x])
 · rw [if_pos closes, items_close, items_push]
 · rw [if_neg closes, items_push]

/-- Every closed group holds something. -/
def Solid (c : Cutting α) : Prop := ∀ g ∈ c.closed, g ≠ []

theorem solid_close (solid : c.Solid) : c.close.Solid := by
 by_cases filled : c.filling = []
 · have same : c.close = c := if_pos (by simp [filled])
   rwa [same]
 · rw [close_of_ne_nil filled]
   intro g member
   rcases List.mem_append.mp member with old | new
   · exact solid g old
   · rw [List.mem_singleton.mp new]
     exact filled

theorem solid_step {rule : Rule α} {x : α} (solid : c.Solid) : (c.step rule x).Solid := by
 have pushed : (c.push x).Solid := solid
 unfold step
 by_cases closes : rule c.closed (c.filling ++ [x])
 · rw [if_pos closes]
   exact solid_close pushed
 · rw [if_neg closes]
   exact pushed

end Cutting

/-- The state after all items, with the last group still open. -/
def cutting (rule : Rule α) (xs : List α) : Cutting α := xs.foldl (Cutting.step rule) Cutting.empty

/-- The groups the rule cuts the items into. -/
def cut (rule : Rule α) (xs : List α) : List (List α) := (cutting rule xs).close.closed

theorem cutting_append (rule : Rule α) (xs : List α) (x : α) :
  cutting rule (xs ++ [x]) = (cutting rule xs).step rule x := by
 simp [cutting]

@[simp] theorem items_cutting (rule : Rule α) (xs : List α) : (cutting rule xs).items = xs := by
 induction xs using List.reverseRecOn with
 | nil => rfl
 | append_singleton xs x ih => rw [cutting_append, Cutting.items_step, ih]

theorem solid_cutting (rule : Rule α) (xs : List α) : (cutting rule xs).Solid := by
 induction xs using List.reverseRecOn with
 | nil =>
  intro g member
  cases member
 | append_singleton xs x ih =>
  rw [cutting_append]
  exact Cutting.solid_step ih

@[simp] theorem flatten_cut (rule : Rule α) (xs : List α) : (cut rule xs).flatten = xs := by
 have whole := Cutting.items_close (cutting rule xs)
 rw [items_cutting, Cutting.items, Cutting.close_filling, List.append_nil] at whole
 exact whole

theorem ne_nil_of_mem_cut {rule : Rule α} {xs : List α} (member : g ∈ cut rule xs) : g ≠ [] :=
 Cutting.solid_close (solid_cutting rule xs) g member

end BackImage.Lib.Cut
