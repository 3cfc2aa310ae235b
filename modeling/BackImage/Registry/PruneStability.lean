/- source: pkg/registry/retention.go
  digest: What a policy kept it keeps again, and what it keeps a wider policy keeps too. -/

import BackImage.Registry.RetentionRules

namespace BackImage.Registry.PruneStability

open Go.Text Index.Model Lib.Buckets PlanIsolation Retention RetentionRules

variable {cal : Calendar} {now : Time} {t : TagInfo}

section Order

variable {p : Policy} {tags : List TagInfo}

theorem sort_filter (q : TagInfo → Bool) (tags : List TagInfo) :
  (sortTagsNewest tags).filter q = sortTagsNewest (tags.filter q) := by
 have : Std.Total fun a b : TagInfo => newer b a = false := ⟨fun _ _ => newer_total⟩
 have : IsTrans TagInfo fun a b => newer b a = false := ⟨fun _ _ _ => newer_false_trans⟩
 exact filter_insertionSort _ q tags

theorem sort_sorted {tags : List TagInfo} (sorted : tags.Pairwise fun a b => newer b a = false) :
  sortTagsNewest tags = tags :=
 sorted.insertionSort_eq

theorem sort_kept : sortTagsNewest (applyOne cal p now tags).1 = (applyOne cal p now tags).1 :=
 sort_sorted ((pairwise_sort tags).sublist List.filter_sublist)

theorem groupTags_keep (rules : p.empty = false) (key : Str) :
  groupTags p key (planFor cal p tags now).keep =
  (applyOne cal p now (groupTags p key tags)).1 := by
 have listed : (planFor cal p tags now).keep =
   sortTagsNewest
    (((groupKeys p tags).flatMap fun k => (applyOne cal p now (groupTags p k tags)).1) ++
    (partition p tags).1.untouched) := by
  rw [planFor_eq rules]
  change sortTagsNewest
   (((groupKeys p tags).map (judged cal p now tags)).flatMap GroupResult.keep ++ _) = _
  rw [List.flatMap_map]
  rfl
 change (planFor cal p tags now).keep.filter (fun t => place p t = some key) = _
 rw [listed, sort_filter, List.filter_append, untouched_of_group, List.append_nil,
  filter_picked fun (bucket : List TagInfo) t (kept : t ∈ (applyOne cal p now bucket).1) =>
   mem_of_applyOne (.inl kept)]
 exact sort_kept

end Order

section Again

variable {p : Policy} {ordered : List TagInfo}

theorem counted_again {rule : Int × (TagInfo → Str)} (given : rule ∈ countRules cal p) :
  (firsts rule.2 [] ((ordered.filter fun u => tagKey u ∈ selectedKeys cal p now ordered).filter
   dated)).take
    rule.1.toNat =
   (firsts rule.2 [] (ordered.filter dated)).take rule.1.toNat := by
 rw [List.filter_filter]
 simp only [Bool.and_comm (dated _)]
 rw [← List.filter_filter]
 apply take_firsts_filter
 intro u counted
 apply decide_eq_true
 rw [mem_selectedKeys]
 exact .inr ⟨rule, given, u, counted, rfl⟩

theorem selected_again (kept : tagKey t ∈ selectedKeys cal p now ordered) :
  tagKey t ∈ selectedKeys cal p now
   (ordered.filter fun u => tagKey u ∈ selectedKeys cal p now ordered) := by
 have reason := kept
 rw [mem_selectedKeys] at reason ⊢
 rcases reason with ⟨u, member, marked, same⟩ | ⟨rule, given, u, counted, same⟩
 · refine .inl ⟨u, List.mem_filter.mpr ⟨member, ?_⟩, marked, same⟩
   rw [same]
   exact decide_eq_true kept
 · refine .inr ⟨rule, given, u, ?_, same⟩
   rw [counted_again given]
   exact counted

theorem applyOne_again (tags : List TagInfo) :
  (applyOne cal p now (applyOne cal p now tags).1).2 = [] := by
 rw [applyOne, sort_kept]
 apply List.filter_eq_nil_iff.mpr
 intro t member dropped
 have kept := of_decide_eq_true (List.mem_filter.mp member).2
 exact of_decide_eq_true dropped (selected_again kept)

theorem remove_again (tags : List TagInfo) :
  (planFor cal p (planFor cal p tags now).keep now).remove = [] := by
 cases rules : p.empty with
 | true =>
  unfold planFor
  dsimp only
  rw [if_pos rules]
 | false =>
  have each : ∀ key, (applyOne cal p now (groupTags p key (planFor cal p tags now).keep)).2 =
    [] := by
   intro key
   rw [groupTags_keep rules]
   exact applyOne_again _
  have removed := @remove_perm cal p now (planFor cal p tags now).keep rules
  have nothing : (groupKeys p (planFor cal p tags now).keep).flatMap (fun key =>
    (applyOne cal p now (groupTags p key (planFor cal p tags now).keep)).2) = [] :=
   List.flatMap_eq_nil_iff.mpr fun key _ => each key
  rw [nothing] at removed
  exact List.perm_nil.mp removed

end Again

structure Wider (p q : Policy) : Prop where
 scope : q.scope = p.scope
 groupBy : q.groupBy = p.groupBy
 keepLast : p.keepLast ≤ q.keepLast
 keepHourly : p.keepHourly ≤ q.keepHourly
 keepDaily : p.keepDaily ≤ q.keepDaily
 keepWeekly : p.keepWeekly ≤ q.keepWeekly
 keepMonthly : p.keepMonthly ≤ q.keepMonthly
 keepYearly : p.keepYearly ≤ q.keepYearly
 keepWithin : p.keepWithin ≤ q.keepWithin
 keepTags : ∀ pattern ∈ p.keepTags, pattern ∈ q.keepTags

section Wide

variable {p q : Policy} {tags ordered : List TagInfo}

theorem Wider.marks (wider : Wider p q) (marked : marks p now t = true) : marks q now t = true := by
 unfold Retention.marks matchesAny at marked ⊢
 simp only [Bool.or_eq_true, Bool.and_eq_true, decide_eq_true_eq, List.any_eq_true] at marked ⊢
 rcases marked with (undated | ⟨pattern, listed, matched⟩) | ⟨positive, recent⟩
 · exact .inl (.inl undated)
 · exact .inl (.inr ⟨pattern, wider.keepTags pattern listed, matched⟩)
 · have longer := wider.keepWithin
   exact .inr ⟨Int.lt_of_lt_of_le positive longer,
    Int.le_trans (Int.sub_le_sub_left longer now) recent⟩

theorem Wider.counts (wider : Wider p q) {rule : Int × (TagInfo → Str)}
  (given : rule ∈ countRules cal p) :
  ∃ n, rule.1 ≤ n ∧ (n, rule.2) ∈ countRules cal q := by
 unfold countRules at given ⊢
 simp only [List.mem_cons, List.not_mem_nil, or_false] at given
 rcases given with rfl | rfl | rfl | rfl | rfl | rfl
 · exact ⟨q.keepLast, wider.keepLast, by simp⟩
 · exact ⟨q.keepHourly, wider.keepHourly, by simp⟩
 · exact ⟨q.keepDaily, wider.keepDaily, by simp⟩
 · exact ⟨q.keepWeekly, wider.keepWeekly, by simp⟩
 · exact ⟨q.keepMonthly, wider.keepMonthly, by simp⟩
 · exact ⟨q.keepYearly, wider.keepYearly, by simp⟩

theorem Wider.selected (wider : Wider p q) {key : Str}
  (kept : key ∈ selectedKeys cal p now ordered) :
  key ∈ selectedKeys cal q now ordered := by
 rw [mem_selectedKeys] at kept ⊢
 rcases kept with ⟨u, member, marked, same⟩ | ⟨rule, given, u, counted, same⟩
 · exact .inl ⟨u, member, wider.marks marked, same⟩
 · obtain ⟨n, further, listed⟩ := wider.counts given
   have longer : rule.1.toNat ≤ n.toNat := by omega
   exact .inr ⟨(n, rule.2), listed, u, (List.take_prefix_take_left longer).subset counted, same⟩

theorem Wider.groupTags (wider : Wider p q) (key : Str) :
  groupTags q key tags = groupTags p key tags := by
 unfold PlanIsolation.groupTags place Policy.reaches Policy.groupOf
 rw [wider.scope, wider.groupBy]

theorem Wider.keep (wider : Wider p q) (rules : p.empty = false) (rules' : q.empty = false)
  (kept : t ∈ (planFor cal p tags now).keep) : t ∈ (planFor cal q tags now).keep := by
 have member : t ∈ tags := (mem_keep_or_remove rules).mpr (.inl kept)
 have same_place : place q t = place p t := by
  unfold place Policy.reaches Policy.groupOf
  rw [wider.scope, wider.groupBy]
 cases placed : place p t with
 | none =>
  -- no rule reaches the tag
  refine ((mem_keep_or_remove rules').mp member).resolve_right ?_
  intro removed
  have somewhere := (placed_of_removed rules' removed).2
  rw [same_place, placed] at somewhere
  cases somewhere
 | some key =>
  have inside : t ∈ PlanIsolation.groupTags p key (planFor cal p tags now).keep :=
   List.mem_filter.mpr ⟨kept, decide_eq_true placed⟩
  rw [groupTags_keep rules] at inside
  obtain ⟨listed, chosen⟩ := List.mem_filter.mp inside
  have again : t ∈ PlanIsolation.groupTags q key (planFor cal q tags now).keep := by
   rw [groupTags_keep rules', wider.groupTags]
   exact List.mem_filter.mpr ⟨listed, decide_eq_true (wider.selected (of_decide_eq_true chosen))⟩
  exact (List.mem_filter.mp again).1

end Wide

/-- Under every policy and at every time, what was kept loses nothing when the policy is applied to
it; and a tag that a policy with a rule keeps is kept by every wider one. -/
theorem prune_stable_and_monotone (cal : Calendar) (now : Time) (tags : List TagInfo) :
  (∀ p, (planFor cal p (planFor cal p tags now).keep now).remove = []) ∧
  ∀ p q, p.empty = false → q.empty = false → Wider p q →
   ∀ t ∈ (planFor cal p tags now).keep, t ∈ (planFor cal q tags now).keep :=
 ⟨fun _ => remove_again tags, fun _ _ rules rules' wider _ kept => wider.keep rules rules' kept⟩

def twoDaysAndMore : Policy := { twoDays with keepLast := 1, keepTags := [lit "d*"] }

theorem two_days_stay : (planFor tenths twoDays dailyTags 40).remove =
  [tagAt "b" 31, tagAt "d" 14] ∧
  (planFor tenths twoDays (planFor tenths twoDays dailyTags 40).keep 40).remove = [] ∧
  ∀ t ∈ (planFor tenths twoDays dailyTags 40).keep,
  t ∈ (planFor tenths twoDaysAndMore dailyTags 40).keep := by
 obtain ⟨stable, monotone⟩ := prune_stable_and_monotone tenths 40 dailyTags
 refine ⟨by decide +kernel, stable twoDays, monotone twoDays twoDaysAndMore rfl rfl ?_⟩
 exact ⟨rfl, rfl, by decide, by decide, by decide, by decide, by decide, by decide, by decide,
  fun _ none_there => absurd none_there List.not_mem_nil⟩

end BackImage.Registry.PruneStability
