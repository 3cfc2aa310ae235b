/- source: none
  digest: The first items of their buckets in an ordered list, and how many come before one of
    them. -/

import Mathlib.Data.Finset.Card
import Mathlib.Data.List.Nodup
import Mathlib.Data.List.Sort
import Mathlib.Tactic.Common

namespace BackImage.Lib.Buckets

variable {α κ : Type} [DecidableEq κ]

/-- The items whose bucket was not seen before. -/
def firsts (bucket : α → κ) : List κ → List α → List α
 | _, [] => []
 | seen, a :: rest =>
  if bucket a ∈ seen then firsts bucket seen rest else a :: firsts bucket (bucket a :: seen) rest

section Firsts

variable {bucket : α → κ} {seen : List κ} {l : List α} {a : α}

theorem firsts_sublist : (firsts bucket seen l).Sublist l := by
 induction l generalizing seen with
 | nil => exact .slnil
 | cons a rest ih =>
  rw [firsts]
  split
  · exact ih.cons a
  · exact ih.cons_cons a

theorem not_mem_seen (member : a ∈ firsts bucket seen l) : bucket a ∉ seen := by
 induction l generalizing seen with
 | nil => cases member
 | cons b rest ih =>
  rw [firsts] at member
  split at member
  · exact ih member
  · rename_i fresh
    rcases List.mem_cons.mp member with rfl | later
    · exact fresh
    · exact fun old => ih later (List.mem_cons_of_mem _ old)

theorem nodup_firsts : ((firsts bucket seen l).map bucket).Nodup := by
 induction l generalizing seen with
 | nil => exact .nil
 | cons a rest ih =>
  rw [firsts]
  split
  · exact ih
  · rw [List.map_cons, List.nodup_cons]
    refine ⟨?_, ih⟩
    intro again
    obtain ⟨b, member, same⟩ := List.mem_map.mp again
    exact not_mem_seen member (by simp [same])

theorem exists_first (member : a ∈ l) (fresh : bucket a ∉ seen) :
  ∃ b ∈ firsts bucket seen l, bucket b = bucket a := by
 induction l generalizing seen with
 | nil => cases member
 | cons c rest ih =>
  rw [firsts]
  by_cases old : bucket c ∈ seen
  · rw [if_pos old]
    rcases List.mem_cons.mp member with rfl | later
    · exact absurd old fresh
    · exact ih later fresh
  · rw [if_neg old]
    by_cases same : bucket c = bucket a
    · exact ⟨c, List.mem_cons_self, same⟩
    · rcases List.mem_cons.mp member with rfl | later
      · exact absurd rfl same
      · have unseen : bucket a ∉ bucket c :: seen := by simp [fresh, Ne.symm same]
        obtain ⟨b, found, is⟩ := ih later unseen
        exact ⟨b, List.mem_cons_of_mem c found, is⟩

theorem take_firsts_filter {n : Nat} {p : α → Bool}
  (kept : ∀ a ∈ (firsts bucket seen l).take n, p a = true) :
  (firsts bucket seen (l.filter p)).take n = (firsts bucket seen l).take n := by
 induction l generalizing seen n with
 | nil => rfl
 | cons a rest ih =>
  rw [firsts] at kept ⊢
  by_cases old : bucket a ∈ seen
  · rw [if_pos old] at kept ⊢
    by_cases stays : p a = true
    · rw [List.filter_cons_of_pos stays, firsts, if_pos old]
      exact ih kept
    · rw [List.filter_cons_of_neg stays]
      exact ih kept
  · rw [if_neg old] at kept ⊢
    cases n with
    | zero => rfl
    | succ n =>
     rw [List.take_succ_cons] at kept ⊢
     have stays := kept a List.mem_cons_self
     rw [List.filter_cons_of_pos stays, firsts, if_neg old, List.take_succ_cons,
      ih fun b later => kept b (List.mem_cons_of_mem a later)]

end Firsts

section Sorting

variable (r : α → α → Prop) [DecidableRel r]

theorem orderedInsert_of_all {a : α} {l : List α} (least : ∀ b ∈ l, r a b) :
  l.orderedInsert r a = a :: l := by
 cases l with
 | nil => rfl
 | cons b rest => rw [List.orderedInsert_cons, if_pos (least b List.mem_cons_self)]

theorem filter_orderedInsert [IsTrans α r] (p : α → Bool) (a : α) {l : List α}
  (sorted : l.Pairwise r) :
  (l.orderedInsert r a).filter p = if p a then (l.filter p).orderedInsert r a else l.filter p := by
 induction l with
 | nil => by_cases stays : p a = true <;> simp [stays]
 | cons b rest ih =>
  obtain ⟨head, tail⟩ := List.pairwise_cons.mp sorted
  rw [List.orderedInsert_cons]
  by_cases before : r a b
  · have least : ∀ c ∈ b :: rest, r a c := by
     intro c member
     rcases List.mem_cons.mp member with rfl | later
     · exact before
     · exact IsTrans.trans a b c before (head c later)
    have first : ((b :: rest).filter p).orderedInsert r a = a :: (b :: rest).filter p :=
     orderedInsert_of_all r fun c member => least c (List.mem_of_mem_filter member)
    rw [if_pos before, List.filter_cons, first]
  · rw [if_neg before, List.filter_cons, ih tail]
    by_cases stays : p b = true
    · rw [if_pos stays, List.filter_cons_of_pos stays, List.orderedInsert_cons, if_neg before]
      split <;> rfl
    · rw [if_neg stays, List.filter_cons_of_neg stays]

theorem filter_insertionSort [IsTrans α r] [Std.Total r] (p : α → Bool) (l : List α) :
  (l.insertionSort r).filter p = (l.filter p).insertionSort r := by
 induction l with
 | nil => rfl
 | cons a rest ih =>
  rw [List.insertionSort_cons, filter_orderedInsert r p a (List.pairwise_insertionSort r rest), ih]
  by_cases stays : p a = true
  · rw [if_pos stays, List.filter_cons_of_pos stays, List.insertionSort_cons]
  · rw [if_neg stays, List.filter_cons_of_neg stays]

end Sorting

section Ordered

variable {before : α → α → Prop} {bucket : α → κ} {l : List α} {a : α}

/-- No item of its bucket comes before it. -/
def IsFirst (before : α → α → Prop) (bucket : α → κ) (l : List α) (a : α) : Prop :=
 a ∈ l ∧ ∀ b ∈ l, bucket b = bucket a → ¬ before b a

instance [DecidableEq α] [DecidableRel before] : DecidablePred (IsFirst before bucket l) :=
 fun _ => inferInstanceAs (Decidable (_ ∧ _))

theorem before_of_firsts {seen : List κ} {b : α} (ordered : l.Pairwise before)
  (member : a ∈ firsts bucket seen l) (other : b ∈ l) (same : bucket b = bucket a) : b = a ∨
  before a b := by
 induction l generalizing seen with
 | nil => cases other
 | cons c rest ih =>
  obtain ⟨head, tail⟩ := List.pairwise_cons.mp ordered
  have fresh := not_mem_seen member
  rw [firsts] at member
  split at member
  · rename_i old
    rcases List.mem_cons.mp other with rfl | later
    · rw [same] at old
      exact absurd old fresh
    · exact ih tail member later
  · rcases List.mem_cons.mp member with rfl | member
    · exact (List.mem_cons.mp other).imp_right (head b)
    · have different := not_mem_seen member
      rcases List.mem_cons.mp other with rfl | later
      · rw [same] at different
        exact absurd List.mem_cons_self different
      · exact ih tail member later

theorem mem_firsts_iff (asymm : ∀ a b, before a b → ¬ before b a) (ordered : l.Pairwise before) :
  a ∈ firsts bucket [] l ↔ IsFirst before bucket l a := by
 constructor
 · intro member
   refine ⟨firsts_sublist.subset member, fun b other same => ?_⟩
   rcases before_of_firsts ordered member other same with rfl | after
   · exact fun loop => asymm b b loop loop
   · exact asymm a b after
 · rintro ⟨member, first⟩
   obtain ⟨b, found, same⟩ : ∃ b ∈ firsts bucket [] l, bucket b = bucket a :=
    exists_first member List.not_mem_nil
   rcases before_of_firsts ordered found member same.symm with rfl | earlier
   · exact found
   · exact absurd earlier (first b (firsts_sublist.subset found) same)

variable [DecidableRel before]

theorem mem_take_iff (asymm : ∀ a b, before a b → ¬ before b a) (ordered : l.Pairwise before)
  (n : Nat) :
  a ∈ l.take n ↔ a ∈ l ∧ (l.filter fun b => before b a).length < n := by
 induction l generalizing n with
 | nil => simp
 | cons c rest ih =>
  obtain ⟨head, tail⟩ := List.pairwise_cons.mp ordered
  cases n with
  | zero => simp
  | succ n =>
   rw [List.take_succ_cons, List.mem_cons, List.mem_cons, ih tail]
   by_cases here : a = c
   · subst here
     have alone : (a :: rest).filter (fun b => before b a) = [] := by
      rw [List.filter_eq_nil_iff]
      intro b member holds
      have earlier := of_decide_eq_true holds
      rcases List.mem_cons.mp member with rfl | later
      · exact asymm b b earlier earlier
      · exact asymm a b (head b later) earlier
     simp [alone]
   · rw [or_iff_right here, or_iff_right here]
     apply and_congr_right
     intro later
     rw [List.filter_cons, if_pos (decide_eq_true (head a later)), List.length_cons]
     omega

variable [DecidableEq α]

/-- The other buckets whose first item comes before `a`. -/
def earlierBuckets (before : α → α → Prop) [DecidableRel before] (bucket : α → κ) (l : List α)
  (a : α) : Finset κ :=
 ((l.filter fun b => IsFirst before bucket l b ∧ bucket b ≠ bucket a ∧ before b a).map
  bucket).toFinset

theorem card_earlierBuckets (asymm : ∀ a b, before a b → ¬ before b a) (ordered : l.Pairwise before)
  (first : IsFirst before bucket l a) :
  (earlierBuckets before bucket l a).card =
  ((firsts bucket [] l).filter fun b => before b a).length := by
 have distinct : (((firsts bucket [] l).filter fun b => before b a).map bucket).Nodup :=
  nodup_firsts.sublist (List.filter_sublist.map bucket)
 rw [← List.length_map (f := bucket), ← List.toFinset_card_of_nodup distinct]
 congr 1
 ext k
 simp only [earlierBuckets, List.mem_toFinset, List.mem_map, List.mem_filter, decide_eq_true_eq,
  mem_firsts_iff asymm ordered]
 constructor
 · rintro ⟨b, ⟨-, isFirst, -, earlier⟩, is⟩
   exact ⟨b, ⟨isFirst, earlier⟩, is⟩
 · rintro ⟨b, ⟨isFirst, earlier⟩, is⟩
   refine ⟨b, ⟨isFirst.1, isFirst, ?_, earlier⟩, is⟩
   exact fun same => first.2 b isFirst.1 same earlier

theorem mem_take_firsts_iff (asymm : ∀ a b, before a b → ¬ before b a) (ordered : l.Pairwise before)
  (n : Nat) :
  a ∈ (firsts bucket [] l).take n ↔
   IsFirst before bucket l a ∧ (earlierBuckets before bucket l a).card < n := by
 rw [mem_take_iff asymm (ordered.sublist firsts_sublist), mem_firsts_iff asymm ordered]
 apply and_congr_right
 intro first
 rw [card_earlierBuckets asymm ordered first]

end Ordered

end BackImage.Lib.Buckets
