/- source: none
  digest: Values under keys, and a bounded set of them that gives up the one used longest ago. -/

import Mathlib.Data.List.Nodup

namespace BackImage.Lib.Recency

universe u v

section Keyed

variable {κ : Type u} {α : Type v} [DecidableEq κ] {k j : κ} {v w : α} {held : List (κ × α)}
 {e : κ × α}

/-- The value under a key. -/
def look (k : κ) (held : List (κ × α)) : Option α := (held.find? fun e => e.1 = k).map Prod.snd

/-- Nothing is left under the key. -/
def drop (k : κ) (held : List (κ × α)) : List (κ × α) := held.filter fun e => e.1 ≠ k

/-- The value replaces what was under the key. -/
def put (k : κ) (v : α) (held : List (κ × α)) : List (κ × α) := (k, v) :: drop k held

@[simp] theorem mem_drop : e ∈ drop k held ↔ e ∈ held ∧ e.1 ≠ k := by
 simp [drop]

@[simp] theorem mem_put : e ∈ put k v held ↔ e = (k, v) ∨ e ∈ held ∧ e.1 ≠ k := by
 simp [put]

@[simp] theorem look_put : look k (put k v held) = some v := by
 simp [look, put]

theorem mem_of_look (found : look k held = some v) : (k, v) ∈ held := by
 obtain ⟨⟨j, w⟩, first, rfl⟩ := Option.map_eq_some_iff.mp found
 have same : j = k := by simpa using List.find?_some first
 rw [← same]
 exact List.mem_of_find?_eq_some first

theorem look_eq_none : look k held = none ↔ ∀ e ∈ held, e.1 ≠ k := by
 simp [look]

theorem look_drop_self : look k (drop k held) = none := by
 rw [look_eq_none]
 intro e member
 exact (mem_drop.mp member).2

theorem look_drop (other : j ≠ k) : look j (drop k held) = look j held := by
 induction held with
 | nil => rfl
 | cons e rest ih =>
  unfold look drop at ih ⊢
  by_cases gone : e.1 = k
  · have passed : e.1 ≠ j := fun same => other (same.symm.trans gone)
    simpa [gone, Ne.symm other] using ih
  · by_cases found : e.1 = j
    · simp [found, other]
    · simpa [gone, found] using ih

theorem look_drop_eq_some : look j (drop k held) = some v ↔ j ≠ k ∧ look j held = some v := by
 by_cases same : j = k
 · simp [same, look_drop_self]
 · simp [same, look_drop same]

theorem look_put_of_ne (other : j ≠ k) : look j (put k v held) = look j held := by
 calc look j (put k v held) = look j (drop k held) := by simp [look, put, Ne.symm other]
  _ = look j held := look_drop other

end Keyed

/-- What is held under keys, and the keys in the order of their last use. -/
structure Slots (κ : Type u) (α : Type v) where
 held : List (κ × α)
 recent : List κ

namespace Slots

variable {κ : Type u} {α : Type v} [DecidableEq κ] {cap : Nat} {k j : κ} {v : α} {s : Slots κ α}

def empty : Slots κ α := ⟨[], []⟩

/-- The key becomes the one used last. -/
def touch (k : κ) (s : Slots κ α) : Slots κ α := { s with recent := s.recent.erase k ++ [k] }

/-- The key is given up. -/
def release (k : κ) (s : Slots κ α) : Slots κ α := ⟨drop k s.held, s.recent.erase k⟩

/-- The keys used longest ago are given up until the rest fits. -/
def evict (cap : Nat) (s : Slots κ α) : Slots κ α :=
 (s.recent.take (s.recent.length - cap)).foldl (fun t k => t.release k) s

theorem evict_of_le (few : s.recent.length ≤ cap) : s.evict cap = s := by
 rw [evict, Nat.sub_eq_zero_of_le few]
 rfl

theorem evict_release (long : cap < s.recent.length) :
  (s.release (s.recent.head (List.ne_nil_of_length_pos (by omega)))).evict cap = s.evict cap := by
 obtain ⟨held, recent⟩ := s
 cases recent with
 | nil => cases long
 | cons k rest =>
  have more : (k :: rest).length - cap = rest.length - cap + 1 :=
   Nat.succ_sub (Nat.lt_succ_iff.mp long)
  simp only [evict, more, List.take_succ_cons, List.foldl_cons, List.head_cons]
  simp [release]

/-- A value is added as the one used last, at the cost of the oldest. -/
def keep (cap : Nat) (k : κ) (v : α) (s : Slots κ α) : Slots κ α :=
 evict cap ⟨put k v s.held, s.recent ++ [k]⟩

/-- The keys in use are those that hold a value, each once. -/
structure Listed (s : Slots κ α) : Prop where
 nodup : s.recent.Nodup
 iff : ∀ k, k ∈ s.recent ↔ look k s.held ≠ none

/-- Not more values than there is room for. -/
structure Consistent (cap : Nat) (s : Slots κ α) : Prop extends Listed s where
 bounded : s.recent.length ≤ cap

theorem consistent_empty : Consistent cap (empty : Slots κ α) :=
 ⟨⟨List.nodup_nil, by simp [empty, look]⟩, Nat.zero_le cap⟩

theorem Listed.release (listed : Listed s) (k : κ) : Listed (s.release k) := by
 refine ⟨listed.nodup.erase k, ?_⟩
 intro j
 change j ∈ s.recent.erase k ↔ look j (drop k s.held) ≠ none
 rw [listed.nodup.mem_erase_iff]
 by_cases same : j = k
 · simp [same, look_drop_self]
 · rw [look_drop same, ← listed.iff j]
   simp [same]

theorem Listed.release_all (listed : Listed s) (ks : List κ) :
  Listed (ks.foldl (fun t k => t.release k) s) := by
 induction ks generalizing s with
 | nil => exact listed
 | cons k rest ih => exact ih (listed.release k)

theorem release_front (s : Slots κ α) (n : Nat) :
  ((s.recent.take n).foldl (fun t k => t.release k) s).recent = s.recent.drop n := by
 induction n generalizing s with
 | zero => rfl
 | succ n ih =>
  obtain ⟨held, recent⟩ := s
  cases recent with
  | nil => rfl
  | cons k rest =>
   have shorter : (Slots.release k ⟨held, k :: rest⟩) = ⟨drop k held, rest⟩ := by
    simp [Slots.release]
   rw [List.take_succ_cons, List.foldl_cons, shorter]
   exact ih ⟨drop k held, rest⟩

theorem look_release_all {ks : List κ} (others : k ∉ ks) :
  look k (ks.foldl (fun t j => t.release j) s).held = look k s.held := by
 induction ks generalizing s with
 | nil => rfl
 | cons j rest ih =>
  rw [List.mem_cons, not_or] at others
  rw [List.foldl_cons, ih others.2]
  exact look_drop others.1

theorem Consistent.release (consistent : Consistent cap s) (k : κ) : Consistent cap (s.release k) :=
 ⟨consistent.toListed.release k, Nat.le_trans List.length_erase_le consistent.bounded⟩

theorem Consistent.touch (consistent : Consistent cap s) (member : k ∈ s.recent) :
  Consistent cap (s.touch k) := by
 have reordered : (s.recent.erase k ++ [k]).Perm s.recent :=
  (List.perm_append_singleton k _).trans (List.perm_cons_erase member).symm
 refine ⟨⟨reordered.nodup_iff.mpr consistent.nodup, ?_⟩, ?_⟩
 · intro j
   exact reordered.mem_iff.trans (consistent.iff j)
 · change (s.recent.erase k ++ [k]).length ≤ cap
   rw [reordered.length_eq]
   exact consistent.bounded

theorem Listed.add (listed : Listed s) (new : k ∉ s.recent) (v : α) :
  Listed ⟨put k v s.held, s.recent ++ [k]⟩ := by
 refine ⟨?_, ?_⟩
 · rw [List.nodup_append_comm]
   exact List.nodup_cons.mpr ⟨new, listed.nodup⟩
 · intro j
   by_cases same : j = k
   · simp [same]
   · simp [look_put_of_ne same, same, listed.iff j]

theorem Consistent.keep (consistent : Consistent cap s) (new : k ∉ s.recent) (v : α) :
  Consistent cap (s.keep cap k v) := by
 refine ⟨(consistent.toListed.add new v).release_all _, ?_⟩
 unfold Slots.keep evict
 rw [release_front, List.length_drop]
 omega

theorem Consistent.look_keep (consistent : Consistent cap s) (room : 0 < cap) (new : k ∉ s.recent)
  (v : α) : look k (s.keep cap k v).held = some v := by
 have older : k ∉ (s.recent ++ [k]).take ((s.recent ++ [k]).length - cap) := by
  have bounded := consistent.bounded
  rw [List.length_append, List.length_singleton, List.take_append_of_le_length (by omega)]
  exact fun member => new (List.mem_of_mem_take member)
 unfold Slots.keep evict
 rw [look_release_all older]
 exact look_put

end Slots

end BackImage.Lib.Recency
