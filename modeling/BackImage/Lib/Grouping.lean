/- source: none
  digest: Grouping a list by a partial key loses nothing and keeps the order within a group. -/

import Mathlib.Data.List.Nodup
import Mathlib.Data.List.Perm.Basic
import Mathlib.Tactic.Common

namespace BackImage.Lib.Grouping

variable {α κ : Type} [DecidableEq κ]

/-- Add an item to its group; a key that was not there yet comes last. -/
def put (key : κ) (a : α) : List (κ × List α) → List (κ × List α)
 | [] => [(key, [a])]
 | (k, members) :: rest =>
  if k = key then (k, members ++ [a]) :: rest else (k, members) :: put key a rest

/-- Groups of the items that have a key, with the keys in the order of their first items. -/
def group (key : α → Option κ) (items : List α) : List (κ × List α) :=
 items.foldl (fun groups a => match key a with
  | some k => put k a groups
  | none => groups) []

/-- The items of one group. -/
def members (key : α → Option κ) (k : κ) (items : List α) : List α :=
 items.filter fun a => key a = some k

/-- The groups with their keys, as they stand after some items. -/
structure Groups (key : α → Option κ) (items : List α) (groups : List (κ × List α)) : Prop where
 distinct : (groups.map Prod.fst).Nodup
 listed : ∀ k, k ∈ groups.map Prod.fst ↔ ∃ a ∈ items, key a = some k
 whole : ∀ k g, (k, g) ∈ groups → g = members key k items

section Put

variable {k : κ} {a : α} {groups : List (κ × List α)}

theorem keys_put : (put k a groups).map Prod.fst =
  if k ∈ groups.map Prod.fst then groups.map Prod.fst else groups.map Prod.fst ++ [k] := by
 induction groups with
 | nil => rfl
 | cons first rest ih =>
  obtain ⟨k', g⟩ := first
  rw [put]
  by_cases same : k' = k
  · subst same
    simp
  · rw [if_neg same, List.map_cons, ih]
    have other : ¬ k = k' := fun equal => same equal.symm
    by_cases later : k ∈ rest.map Prod.fst
    · rw [if_pos later, if_pos (by simp [later])]
      rfl
    · rw [if_neg later, if_neg (by simpa [other] using later)]
      rfl

theorem mem_put {k' : κ} {g : List α} (distinct : (groups.map Prod.fst).Nodup)
  (member : (k', g) ∈ put k a groups) :
  k' ≠ k ∧ (k', g) ∈ groups ∨
   k' = k ∧ (g = [a] ∧ k ∉ groups.map Prod.fst ∨ ∃ old, (k, old) ∈ groups ∧ g = old ++ [a]) := by
 induction groups with
 | nil =>
  cases List.mem_singleton.mp member
  exact .inr ⟨rfl, .inl ⟨rfl, List.not_mem_nil⟩⟩
 | cons first rest ih =>
  obtain ⟨k₀, g₀⟩ := first
  rw [List.map_cons, List.nodup_cons] at distinct
  rw [put] at member
  by_cases same : k₀ = k
  · subst same
    rw [if_pos rfl] at member
    rcases List.mem_cons.mp member with first | later
    · cases first
      exact .inr ⟨rfl, .inr ⟨g₀, List.mem_cons_self, rfl⟩⟩
    · refine .inl ⟨?_, List.mem_cons_of_mem _ later⟩
      rintro rfl
      exact distinct.1 (List.mem_map.mpr ⟨_, later, rfl⟩)
  · rw [if_neg same] at member
    rcases List.mem_cons.mp member with first | later
    · cases first
      exact .inl ⟨same, List.mem_cons_self⟩
    · rcases ih distinct.2 later with ⟨other, old⟩ | ⟨is, ⟨new, absent⟩ | ⟨old, there, grown⟩⟩
      · exact .inl ⟨other, List.mem_cons_of_mem _ old⟩
      · refine .inr ⟨is, .inl ⟨new, ?_⟩⟩
        rw [List.map_cons, List.mem_cons, not_or]
        exact ⟨fun equal => same equal.symm, absent⟩
      · exact .inr ⟨is, .inr ⟨old, List.mem_cons_of_mem _ there, grown⟩⟩

end Put

section Group

variable {key : α → Option κ} {items : List α}

theorem Groups.members_nil {groups : List (κ × List α)} (sofar : Groups key items groups) {k : κ}
  (absent : k ∉ groups.map Prod.fst) : members key k items = [] := by
 rw [sofar.listed] at absent
 apply List.filter_eq_nil_iff.mpr
 intro b inside isKey
 exact absent ⟨b, inside, of_decide_eq_true isKey⟩

theorem groups_snoc {groups : List (κ × List α)} {a : α} (sofar : Groups key items groups) :
  Groups key (items ++ [a]) (match key a with
   | some k => put k a groups
   | none => groups) := by
 cases keyed : key a with
 | none =>
  refine ⟨sofar.distinct, ?_, ?_⟩
  · intro k
    rw [sofar.listed]
    simp [keyed]
  · intro k g member
    rw [sofar.whole k g member, members, members, List.filter_append]
    simp [keyed]
 | some k₀ =>
  dsimp only
  refine ⟨?_, ?_, ?_⟩
  · rw [keys_put]
    split
    · exact sofar.distinct
    · rename_i absent
      rw [List.nodup_append]
      refine ⟨sofar.distinct, List.nodup_singleton _, ?_⟩
      rintro x inside y last rfl
      rw [List.mem_singleton.mp last] at inside
      exact absent inside
  · intro k
    have split_keys : k ∈ (put k₀ a groups).map Prod.fst ↔ k ∈ groups.map Prod.fst ∨ k = k₀ := by
     rw [keys_put]
     split
     · rename_i present
       refine ⟨.inl, ?_⟩
       rintro (there | rfl)
       · exact there
       · exact present
     · rw [List.mem_append, List.mem_singleton]
    rw [split_keys, sofar.listed]
    simp [keyed, or_and_right, exists_or, eq_comm]
  · intro k g member
    have grow : members key k (items ++ [a]) =
      members key k items ++ if k₀ = k then [a] else [] := by
     rw [members, members, List.filter_append]
     by_cases same : k₀ = k
     · simp [keyed, same]
     · simp [keyed, same]
    rw [grow]
    rcases mem_put sofar.distinct member with
     ⟨other, old⟩ | ⟨rfl, ⟨rfl, absent⟩ | ⟨old, there, rfl⟩⟩
    · rw [if_neg (fun equal => other equal.symm), List.append_nil]
      exact sofar.whole k g old
    · rw [if_pos rfl, sofar.members_nil absent, List.nil_append]
    · rw [if_pos rfl, sofar.whole _ _ there]

theorem groups_group (key : α → Option κ) (items : List α) :
  Groups key items (group key items) := by
 suffices general : ∀ (seen rest : List α) (groups : List (κ × List α)), Groups key seen groups →
   Groups key (seen ++ rest) (rest.foldl (fun groups a => match key a with
    | some k => put k a groups
    | none => groups) groups) from
  general [] items []
   ⟨List.nodup_nil, by simp, fun _ _ none_there => absurd none_there List.not_mem_nil⟩
 intro seen rest
 induction rest generalizing seen with
 | nil =>
  intro groups sofar
  rw [List.append_nil]
  exact sofar
 | cons a rest ih =>
  intro groups sofar
  have next := ih (seen ++ [a]) _ (groups_snoc sofar)
  rw [List.append_assoc] at next
  exact next

theorem lookup_group [BEq κ] [LawfulBEq κ] (k : κ) :
  ((group key items).lookup k).getD [] = members key k items := by
 cases found : (group key items).lookup k with
 | none =>
  have absent : k ∉ (group key items).map Prod.fst := by
   intro inside
   obtain ⟨entry, listed, rfl⟩ := List.mem_map.mp inside
   have differs := List.lookup_eq_none_iff.mp found entry listed
   simp at differs
  exact ((groups_group key items).members_nil absent).symm
 | some g =>
  obtain ⟨before, after, is, -⟩ := List.lookup_eq_some_iff.mp found
  refine (groups_group key items).whole k g ?_
  rw [is]
  exact List.mem_append_right _ List.mem_cons_self

theorem flatMap_members_perm {keys : List κ} (distinct : keys.Nodup)
  (complete : ∀ a ∈ items, ∀ k, key a = some k → k ∈ keys) :
  (keys.flatMap fun k => members key k items).Perm (items.filter fun a => (key a).isSome) := by
 induction keys generalizing items with
 | nil =>
  have none_keyed : items.filter (fun a => (key a).isSome) = [] := by
   apply List.filter_eq_nil_iff.mpr
   intro a inside keyed
   obtain ⟨k, is⟩ := Option.isSome_iff_exists.mp keyed
   cases complete a inside k is
  rw [none_keyed]
  exact .nil
 | cons k keys ih =>
  rw [List.nodup_cons] at distinct
  have rest_complete : ∀ a ∈ items.filter fun a => !decide (key a = some k),
    ∀ k', key a = some k' → k' ∈ keys := by
   intro a inside k' is
   obtain ⟨there, other⟩ := List.mem_filter.mp inside
   refine (List.mem_cons.mp (complete a there k' is)).resolve_left ?_
   rintro rfl
   simp [is] at other
  have others := ih distinct.2 rest_complete
  have unmoved :
   (keys.flatMap fun k' => members key k' (items.filter fun a => !decide (key a = some k))) =
    keys.flatMap fun k' => members key k' items := by
   apply List.flatMap_congr
   intro k' inside
   rw [members, members, List.filter_filter]
   apply List.filter_congr
   intro a _
   have apart : k' ≠ k := fun equal => distinct.1 (equal ▸ inside)
   by_cases is : key a = some k' <;> simp [is, apart]
  have own : members key k items = (items.filter fun a => (key a).isSome).filter fun a =>
    key a = some k := by
   rw [members, List.filter_filter]
   apply List.filter_congr
   intro a _
   by_cases is : key a = some k <;> simp [is]
  rw [unmoved, List.filter_comm] at others
  rw [List.flatMap_cons, own]
  exact (others.append_left _).trans (List.filter_append_perm _ _)

theorem filter_flatMap_keyed {keys : List κ} (distinct : keys.Nodup) {part : κ → List α}
  (keyed : ∀ k, ∀ a ∈ part k, key a = some k) (k : κ) :
  (keys.flatMap part).filter (fun a => key a = some k) = if k ∈ keys then part k else [] := by
 have own : (part k).filter (fun a => key a = some k) = part k := by
  apply List.filter_eq_self.mpr
  intro a inside
  exact decide_eq_true (keyed k a inside)
 have other : ∀ k', k' ≠ k → (part k').filter (fun a => key a = some k) = [] := by
  intro k' differs
  apply List.filter_eq_nil_iff.mpr
  intro a inside is
  have both := (keyed k' a inside).symm.trans (of_decide_eq_true is)
  exact differs (Option.some.inj both)
 induction keys with
 | nil => rfl
 | cons k' keys ih =>
  rw [List.nodup_cons] at distinct
  rw [List.flatMap_cons, List.filter_append, ih distinct.2]
  by_cases same : k' = k
  · subst same
    rw [own, if_neg distinct.1, List.append_nil, if_pos List.mem_cons_self]
  · rw [other k' same, List.nil_append]
    have member : k ∈ k' :: keys ↔ k ∈ keys := by
     rw [List.mem_cons]
     exact or_iff_right fun equal => same equal.symm
    by_cases later : k ∈ keys
    · rw [if_pos later, if_pos (member.mpr later)]
    · rw [if_neg later, if_neg fun inside => later (member.mp inside)]

end Group

end BackImage.Lib.Grouping
