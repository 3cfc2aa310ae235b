/- source: pkg/registry/retention.go
  digest: A plan is a partition of the tags, and the tags of other groups do not matter. -/

import BackImage.Registry.Retention

namespace BackImage.Registry.PlanIsolation

open Go.Text Index.Model Lib.Grouping Retention

def place (p : Policy) (t : TagInfo) : Option Str := if p.reaches t then p.groupOf t else none

def groupTags (p : Policy) (key : Str) (tags : List TagInfo) : List TagInfo :=
 members (place p) key tags

def groupKeys (p : Policy) (tags : List TagInfo) : List Str := (partition p tags).2.2

variable {cal : Calendar} {p : Policy} {now : Time} {tags : List TagInfo}

theorem members_groupOf (key : Str) :
  members p.groupOf key (tags.filter p.reaches) = groupTags p key tags := by
 rw [groupTags, members, members, List.filter_filter]
 apply List.filter_congr
 intro t _
 by_cases reached : p.reaches t = true
 · simp [place, reached]
 · simp [place, reached]

theorem bucket_eq (key : Str) :
  (((partition p tags).2.1).lookup key).getD [] = groupTags p key tags := by
 rw [← members_groupOf]
 exact lookup_group key

theorem groupKeys_perm :
  (groupKeys p tags).Perm ((group p.groupOf (tags.filter p.reaches)).map Prod.fst) :=
 List.perm_insertionSort _ _

theorem nodup_groupKeys : (groupKeys p tags).Nodup :=
 groupKeys_perm.nodup_iff.mpr (groups_group _ _).distinct

theorem groupTags_nil_of_absent {key : Str} (absent : key ∉ groupKeys p tags) :
  groupTags p key tags = [] := by
 rw [groupKeys_perm.mem_iff] at absent
 rw [← members_groupOf]
 exact (groups_group _ _).members_nil absent

theorem flatMap_groupTags : ((groupKeys p tags).flatMap fun key => groupTags p key tags).Perm
   (tags.filter fun t => (place p t).isSome) := by
 apply flatMap_members_perm nodup_groupKeys
 intro t inside key placed
 by_contra absent
 have none_there := groupTags_nil_of_absent absent
 have member : t ∈ groupTags p key tags := List.mem_filter.mpr ⟨inside, decide_eq_true placed⟩
 rw [none_there] at member
 cases member

theorem untouched_perm :
  ((partition p tags).1.untouched).Perm (tags.filter fun t => (place p t).isNone) := by
 have outside : (tags.filter fun t => !p.reaches t) =
   (tags.filter fun t => (place p t).isNone).filter fun t => !p.reaches t := by
  rw [List.filter_filter]
  apply List.filter_congr
  intro t _
  by_cases reached : p.reaches t = true
  · simp [reached]
  · simp [place, reached]
 have loose : ((tags.filter p.reaches).filter fun t => (p.groupOf t).isNone) =
   (tags.filter fun t => (place p t).isNone).filter p.reaches := by
  rw [List.filter_filter, List.filter_filter]
  apply List.filter_congr
  intro t _
  by_cases reached : p.reaches t = true
  · simp [place, reached]
  · simp [reached]
 change ((tags.filter fun t => !p.reaches t) ++
  (tags.filter p.reaches).filter fun t => (p.groupOf t).isNone).Perm _
 rw [outside, loose]
 exact List.perm_append_comm.trans (List.filter_append_perm p.reaches _)

section Rules

theorem sort_perm (tags : List TagInfo) : (sortTagsNewest tags).Perm tags :=
 List.perm_insertionSort _ tags

variable {n : Int} {bucket : TagInfo → Str} {selected : List Str}

theorem subset_markLoop (tags : List TagInfo) {seen : List Str}
  {kept : Int} : ∀ key ∈ selected, key ∈ markLoop n bucket tags seen kept selected := by
 induction tags generalizing seen kept selected with
 | nil => exact fun key inside => inside
 | cons t rest ih =>
  intro key inside
  rw [markLoop]
  split
  · exact ih key inside
  · split
    · exact ih key inside
    · split
      · exact ih key inside
      · exact ih key (List.mem_cons_of_mem _ inside)

theorem subset_markFirst {key : Str} (inside : key ∈ selected) :
  key ∈ markFirst n bucket tags selected := by
 unfold markFirst
 split
 · exact inside
 · exact subset_markLoop tags key inside

variable {t : TagInfo}

theorem marked_selected (member : t ∈ tags) (marked : marks p now t = true) :
  tagKey t ∈ selectedKeys cal p now tags := by
 have first : tagKey t ∈ (tags.filter (marks p now)).map tagKey :=
  List.mem_map.mpr ⟨t, List.mem_filter.mpr ⟨member, marked⟩, rfl⟩
 unfold selectedKeys
 dsimp only
 iterate 6 apply subset_markFirst
 exact first

theorem applyOne_perm : ((applyOne cal p now tags).1 ++ (applyOne cal p now tags).2).Perm tags := by
 unfold applyOne
 dsimp only
 have halves := List.filter_append_perm
  (fun t => decide (tagKey t ∈ selectedKeys cal p now (sortTagsNewest tags))) (sortTagsNewest tags)
 simp only [← decide_not] at halves
 exact halves.trans (sort_perm tags)

theorem mem_of_applyOne (member : t ∈ (applyOne cal p now tags).1 ∨
   t ∈ (applyOne cal p now tags).2) : t ∈ tags :=
 applyOne_perm.mem_iff.mp (List.mem_append.mpr member)

theorem dated_of_removed (removed : t ∈ (applyOne cal p now tags).2) : t.created ≠ 0 := by
 intro undated
 unfold applyOne at removed
 obtain ⟨ordered, notSelected⟩ := List.mem_filter.mp removed
 refine of_decide_eq_true notSelected (marked_selected ordered ?_)
 simp [marks, undated]

end Rules

def judged (cal : Calendar) (p : Policy) (now : Time) (tags : List TagInfo) (key : Str) :
  GroupResult :=
 let bucket := groupTags p key tags
 ⟨key, bucket.length, (applyOne cal p now bucket).1, (applyOne cal p now bucket).2⟩

def shown (p : Policy) (tags : List TagInfo) (key : Str) : GroupResult :=
 ⟨key, (groupTags p key tags).length, sortTagsNewest (groupTags p key tags), []⟩

section Plan

theorem planFor_eq (rules : p.empty = false) : planFor cal p tags now =
   ((partition p tags).1.withGroups ((groupKeys p tags).map (judged cal p now tags))).finish := by
 have same : judged cal p now tags = fun key =>
   let bucket := (((partition p tags).2.1).lookup key).getD []
   ⟨key, bucket.length, (applyOne cal p now bucket).1, (applyOne cal p now bucket).2⟩ := by
  funext key
  simp only [bucket_eq]
  rfl
 rw [same]
 unfold planFor
 dsimp only
 rw [if_neg (by simp [rules])]
 rfl

theorem select_eq : select p tags =
   ((partition p tags).1.withGroups ((groupKeys p tags).map (shown p tags))).finish := by
 have same : shown p tags = fun key =>
   let bucket := (((partition p tags).2.1).lookup key).getD []
   ⟨key, bucket.length, sortTagsNewest bucket, []⟩ := by
  funext key
  simp only [bucket_eq]
  rfl
 rw [same]
 rfl

theorem keep_perm (rules : p.empty = false) : (planFor cal p tags now).keep.Perm
   (((groupKeys p tags).flatMap fun key => (applyOne cal p now (groupTags p key tags)).1) ++
    (partition p tags).1.untouched) := by
 rw [planFor_eq rules]
 refine (sort_perm _).trans ?_
 change (((groupKeys p tags).map (judged cal p now tags)).flatMap GroupResult.keep ++ _).Perm _
 rw [List.flatMap_map]
 exact List.Perm.refl _

theorem remove_perm (rules : p.empty = false) : (planFor cal p tags now).remove.Perm
   ((groupKeys p tags).flatMap fun key => (applyOne cal p now (groupTags p key tags)).2) := by
 rw [planFor_eq rules]
 refine (sort_perm _).trans ?_
 change (((groupKeys p tags).map (judged cal p now tags)).flatMap GroupResult.remove).Perm _
 rw [List.flatMap_map]
 exact List.Perm.refl _

theorem keep_remove_perm (rules : p.empty = false) :
  ((planFor cal p tags now).keep ++ (planFor cal p tags now).remove).Perm tags := by
 let kept := fun key => (applyOne cal p now (groupTags p key tags)).1
 let removed := fun key => (applyOne cal p now (groupTags p key tags)).2
 have groups : ((groupKeys p tags).flatMap kept ++ (groupKeys p tags).flatMap removed).Perm
   (tags.filter fun t => (place p t).isSome) :=
  calc ((groupKeys p tags).flatMap kept ++ (groupKeys p tags).flatMap removed).Perm
        ((groupKeys p tags).flatMap fun key => kept key ++ removed key) :=
        List.flatMap_append_perm _ _ _
   List.Perm _ ((groupKeys p tags).flatMap fun key => groupTags p key tags) :=
     List.Perm.flatMap_left _ fun _ _ => applyOne_perm
   List.Perm _ _ := flatMap_groupTags
 have loose := @untouched_perm p tags
 have all := List.filter_append_perm (fun t => (place p t).isSome) tags
 simp only [Option.not_isSome] at all
 calc ((planFor cal p tags now).keep ++ (planFor cal p tags now).remove).Perm
       (((groupKeys p tags).flatMap kept ++ (partition p tags).1.untouched) ++
        (groupKeys p tags).flatMap removed) := (keep_perm rules).append (remove_perm rules)
  List.Perm _ (((groupKeys p tags).flatMap kept ++ (groupKeys p tags).flatMap removed) ++
     (partition p tags).1.untouched) := by
    rw [List.append_assoc, List.append_assoc]
    exact List.Perm.append_left _ List.perm_append_comm
  List.Perm _ ((tags.filter fun t => (place p t).isSome) ++
     tags.filter fun t => (place p t).isNone) := groups.append loose
  List.Perm _ tags := all

variable {t : TagInfo}

theorem placed_of_removed (rules : p.empty = false)
  (removed : t ∈ (planFor cal p tags now).remove) : t.created ≠ 0 ∧ (place p t).isSome := by
 obtain ⟨key, -, judgedOut⟩ := List.mem_flatMap.mp ((remove_perm rules).mem_iff.mp removed)
 have member := mem_of_applyOne (.inr judgedOut)
 have placed : place p t = some key := of_decide_eq_true (List.mem_filter.mp member).2
 exact ⟨dated_of_removed judgedOut, by rw [placed]; rfl⟩

theorem mem_keep_or_remove (rules : p.empty = false) :
  t ∈ tags ↔ t ∈ (planFor cal p tags now).keep ∨ t ∈ (planFor cal p tags now).remove := by
 rw [← List.mem_append]
 exact (keep_remove_perm rules).symm.mem_iff

theorem filter_picked {pick : List TagInfo → List TagInfo}
  (picks : ∀ bucket, ∀ t ∈ pick bucket, t ∈ bucket) (key : Str) :
  ((groupKeys p tags).flatMap fun k => pick (groupTags p k tags)).filter
   (fun t => place p t = some key) = pick (groupTags p key tags) := by
 have keyed : ∀ k, ∀ t ∈ pick (groupTags p k tags), place p t = some k := by
  intro k t picked
  exact of_decide_eq_true (List.mem_filter.mp (picks _ t picked)).2
 rw [filter_flatMap_keyed nodup_groupKeys keyed]
 split
 · rfl
 · rename_i absent
   rw [groupTags_nil_of_absent absent]
   symm
   apply List.eq_nil_iff_forall_not_mem.mpr
   intro t picked
   exact List.not_mem_nil (picks [] t picked)

theorem untouched_of_group (key : Str) :
  (partition p tags).1.untouched.filter (fun t => place p t = some key) = [] := by
 apply List.filter_eq_nil_iff.mpr
 intro t inside placed
 have loose := (List.mem_filter.mp (untouched_perm.mem_iff.mp inside)).2
 rw [of_decide_eq_true placed] at loose
 cases loose

theorem keep_of_group (rules : p.empty = false) (key : Str) :
  ((planFor cal p tags now).keep.filter fun t => place p t = some key).Perm
   (applyOne cal p now (groupTags p key tags)).1 := by
 have part := (@keep_perm cal p now tags rules).filter
  fun t => place p t = some key
 rw [List.filter_append, untouched_of_group, List.append_nil,
  filter_picked fun (bucket : List TagInfo) t (kept : t ∈ (applyOne cal p now bucket).1) =>
   mem_of_applyOne (.inl kept)] at part
 exact part

theorem remove_of_group (rules : p.empty = false) (key : Str) :
  ((planFor cal p tags now).remove.filter fun t => place p t = some key).Perm
   (applyOne cal p now (groupTags p key tags)).2 := by
 have part := (@remove_perm cal p now tags rules).filter
  fun t => place p t = some key
 rw [filter_picked fun (bucket : List TagInfo) t (removed : t ∈ (applyOne cal p now bucket).2) =>
   mem_of_applyOne (.inr removed)] at part
 exact part

theorem groupTags_groupTags (key : Str) :
  groupTags p key (groupTags p key tags) = groupTags p key tags := by
 unfold groupTags members
 rw [List.filter_filter]
 simp only [Bool.and_self]

theorem filter_group_self {decided : List TagInfo} {key : Str}
  (inside : ∀ t ∈ decided, t ∈ groupTags p key tags) :
  decided.filter (fun t => place p t = some key) = decided := by
 apply List.filter_eq_self.mpr
 intro t member
 exact (List.mem_filter.mp (inside t member)).2

theorem keep_alone (rules : p.empty = false) (key : Str) :
  (planFor cal p (groupTags p key tags) now).keep.Perm
   (applyOne cal p now (groupTags p key tags)).1 := by
 have part := @keep_of_group cal p now (groupTags p key tags) rules key
 rw [groupTags_groupTags, filter_group_self fun t kept =>
  (mem_keep_or_remove rules).mpr (.inl kept)] at part
 exact part

theorem remove_alone (rules : p.empty = false) (key : Str) :
  (planFor cal p (groupTags p key tags) now).remove.Perm
   (applyOne cal p now (groupTags p key tags)).2 := by
 have part := @remove_of_group cal p now (groupTags p key tags) rules key
 rw [groupTags_groupTags, filter_group_self fun t removed =>
  (mem_keep_or_remove rules).mpr (.inr removed)] at part
 exact part

theorem sum_tags (rules : p.empty = false) :
  ((planFor cal p tags now).groups.map GroupResult.tags).sum + (planFor cal p tags now).ungrouped =
   (planFor cal p tags now).inScope := by
 have lengths : (planFor cal p tags now).groups.map GroupResult.tags =
   (groupKeys p tags).map fun key => (groupTags p key tags).length := by
  rw [planFor_eq rules]
  exact List.map_map
 have grouped : (tags.filter fun t => (place p t).isSome) =
   (tags.filter p.reaches).filter fun t => (p.groupOf t).isSome := by
  rw [List.filter_filter]
  apply List.filter_congr
  intro t _
  by_cases reached : p.reaches t = true
  · simp [place, reached]
  · simp [place, reached]
 have loose : (planFor cal p tags now).ungrouped =
   ((tags.filter p.reaches).filter fun t => (p.groupOf t).isNone).length := by
  rw [planFor_eq rules]
  rfl
 have reached : (planFor cal p tags now).inScope = (tags.filter p.reaches).length := by
  rw [planFor_eq rules]
  rfl
 have halves := (List.filter_append_perm (fun t => (p.groupOf t).isSome)
  (tags.filter p.reaches)).length_eq
 simp only [Option.not_isSome] at halves
 rw [lengths, loose, reached, ← List.length_flatMap, flatMap_groupTags.length_eq, grouped,
  ← List.length_append]
 exact halves

end Plan

structure SameGroup (g h : GroupResult) : Prop where
 key : g.key = h.key
 tags : g.tags = h.tags
 reached : (g.keep ++ g.remove).Perm (h.keep ++ h.remove)

structure SameReach (a b : Plan) : Prop where
 total : a.total = b.total
 inScope : a.inScope = b.inScope
 ungrouped : a.ungrouped = b.ungrouped
 untouched : a.untouched = b.untouched
 groups : List.Forall₂ SameGroup a.groups b.groups
 selected : a.selected.Perm b.selected

/-- A plan as a partition of the tags that decides each group by itself. -/
structure Isolated (cal : Calendar) (p : Policy) (tags : List TagInfo) (now : Time) : Prop where
 whole : ((planFor cal p tags now).keep ++ (planFor cal p tags now).remove).Perm tags
 spared : ∀ t ∈ tags, p.reaches t = false ∨ p.groupOf t = none ∨ t.created = 0 →
  t ∈ (planFor cal p tags now).keep ∧ t ∉ (planFor cal p tags now).remove
 counted : ((planFor cal p tags now).groups.map GroupResult.tags).sum +
  (planFor cal p tags now).ungrouped = (planFor cal p tags now).inScope
 keepAlone : ∀ key, ((planFor cal p tags now).keep.filter fun t => place p t = some key).Perm
  (planFor cal p (groupTags p key tags) now).keep
 removeAlone : ∀ key, ((planFor cal p tags now).remove.filter fun t => place p t = some key).Perm
  (planFor cal p (groupTags p key tags) now).remove
 keepBlind : ∀ key others, groupTags p key others = groupTags p key tags →
  ((planFor cal p others now).keep.filter fun t => place p t = some key).Perm
   ((planFor cal p tags now).keep.filter fun t => place p t = some key)
 removeBlind : ∀ key others, groupTags p key others = groupTags p key tags →
  ((planFor cal p others now).remove.filter fun t => place p t = some key).Perm
   ((planFor cal p tags now).remove.filter fun t => place p t = some key)
 preview : SameReach (select p tags) (planFor cal p tags now)

theorem shown_judged (key : Str) : SameGroup (shown p tags key) (judged cal p now tags key) := by
 refine ⟨rfl, rfl, ?_⟩
 rw [shown, List.append_nil]
 exact (sort_perm _).trans applyOne_perm.symm

theorem select_reaches (rules : p.empty = false) :
  SameReach (select p tags) (planFor cal p tags now) := by
 have pairs : List.Forall₂ SameGroup ((groupKeys p tags).map (shown p tags))
   ((groupKeys p tags).map (judged cal p now tags)) := by
  rw [List.forall₂_map_left_iff, List.forall₂_map_right_iff, List.forall₂_same]
  exact fun key _ => shown_judged key
 rw [planFor_eq rules, select_eq]
 refine ⟨rfl, rfl, rfl, rfl, pairs, ?_⟩
 refine (sort_perm _).trans (List.Perm.trans ?_ (sort_perm _).symm)
 change (((groupKeys p tags).map (shown p tags)).flatMap fun g => g.keep ++ g.remove).Perm
  (((groupKeys p tags).map (judged cal p now tags)).flatMap fun g => g.keep ++ g.remove)
 rw [List.flatMap_map, List.flatMap_map]
 exact List.Perm.flatMap_left _ fun key _ => (shown_judged key).reached

theorem spared_of_loose (rules : p.empty = false) {t : TagInfo} (member : t ∈ tags)
  (loose : p.reaches t = false ∨ p.groupOf t = none ∨ t.created = 0) :
  t ∈ (planFor cal p tags now).keep ∧ t ∉ (planFor cal p tags now).remove := by
 have notRemoved : t ∉ (planFor cal p tags now).remove := by
  intro removed
  obtain ⟨dated, placed⟩ := placed_of_removed rules removed
  rcases loose with outside | ungrouped | undated
  · simp [place, outside] at placed
  · simp [place, ungrouped] at placed
  · exact dated undated
 exact ⟨((mem_keep_or_remove rules).mp member).resolve_right notRemoved, notRemoved⟩

/-- Under every policy with a rule, the plan is a partition that decides each group by itself. -/
theorem planFor_isolated (cal : Calendar) (p : Policy) (tags : List TagInfo) (now : Time)
  (rules : p.empty = false) : Isolated cal p tags now where
 whole := keep_remove_perm rules
 spared := fun _ member loose => spared_of_loose rules member loose
 counted := sum_tags rules
 keepAlone := fun key => (keep_of_group rules key).trans (keep_alone rules key).symm
 removeAlone := fun key => (remove_of_group rules key).trans (remove_alone rules key).symm
 keepBlind := by
  intro key others same
  have there := @keep_of_group cal p now others rules key
  rw [same] at there
  exact there.trans (keep_of_group rules key).symm
 removeBlind := by
  intro key others same
  have there := @remove_of_group cal p now others rules key
  rw [same] at there
  exact there.trans (remove_of_group rules key).symm
 preview := select_reaches rules

def perStem : Policy where
 keepLast := 1
 keepHourly := 0
 keepDaily := 0
 keepWeekly := 0
 keepMonthly := 0
 keepYearly := 0
 keepWithin := 0
 keepTags := []
 scope := some fun tag => tag ≠ lit "old"
 groupBy := some fun tag => some (tag, [tag.take 2])

def plainCalendar : Calendar := ⟨fun _ _ => [], fun _ => (0, 0)⟩

def tagAt (name : String) (created : Time) : TagInfo :=
 ⟨lit name, ⟨lit "sha256", lit name⟩, created, 0, none⟩

def mixedTags : List TagInfo :=
 [tagAt "db1" 10, tagAt "db2" 20, tagAt "old" 5, tagAt "ap1" 3, tagAt "db0" 0, tagAt "ap2" 1]

theorem newest_of_each_stem : perStem.empty = false ∧
  (planFor plainCalendar perStem mixedTags 30).remove = [tagAt "db1" 10, tagAt "ap2" 1] ∧
  Isolated plainCalendar perStem mixedTags 30 :=
 ⟨rfl, by decide +kernel, planFor_isolated plainCalendar perStem mixedTags 30 rfl⟩

end BackImage.Registry.PlanIsolation
