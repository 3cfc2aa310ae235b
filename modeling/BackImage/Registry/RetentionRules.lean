/- source: pkg/registry/retention.go
  digest: A group keeps the union of its rules, whatever the order in which its tags are listed. -/

import BackImage.Lib.Buckets
import BackImage.Registry.PlanIsolation

namespace BackImage.Registry.RetentionRules

open Go.Text Index.Model Lib.Buckets Retention Restore.OciLayout
open PlanIsolation (sort_perm perStem tagAt)

/-- What the parser of `v1.Hash` lets through: an algorithm in front of the first colon, and hex
digits. -/
structure WellFormed (h : Hash) : Prop where
 algorithm : (58 : UInt8) ∉ h.algorithm ∧ (0 : UInt8) ∉ h.algorithm
 hex : (0 : UInt8) ∉ h.hex

theorem append_sep_inj {sep : UInt8} {a b a' b' : Str} (left : sep ∉ a) (left' : sep ∉ a')
  (same : a ++ sep :: b = a' ++ sep :: b') : a = a' ∧ b = b' := by
 induction a generalizing a' with
 | nil =>
  cases a' with
  | nil => simpa using same
  | cons c rest =>
   have head : sep = c := by simpa using congrArg List.head? same
   exact absurd (head ▸ List.mem_cons_self) left'
 | cons c rest ih =>
  cases a' with
  | nil =>
   have head : c = sep := by simpa using congrArg List.head? same
   exact absurd (head ▸ List.mem_cons_self) left
  | cons c' rest' =>
   obtain ⟨rfl, tail⟩ := List.cons.inj same
   obtain ⟨rfl, rfl⟩ := ih (fun member => left (List.mem_cons_of_mem _ member))
    (fun member => left' (List.mem_cons_of_mem _ member)) tail
   exact ⟨rfl, rfl⟩

theorem hashString_inj {h h' : Hash} (wf : WellFormed h) (wf' : WellFormed h')
  (same : hashString h = hashString h') : h = h' := by
 have colon : lit ":" = [58] := by decide
 unfold hashString at same
 rw [colon, List.append_assoc, List.append_assoc] at same
 obtain ⟨algorithm, hex⟩ := append_sep_inj wf.algorithm.1 wf'.algorithm.1 same
 cases h
 cases h'
 cases algorithm
 cases hex
 rfl

theorem hashString_clean {h : Hash} (wf : WellFormed h) : (0 : UInt8) ∉ hashString h := by
 have colon : lit ":" = [58] := by decide
 unfold hashString
 rw [colon]
 simp [wf.algorithm.2, wf.hex]

theorem tagKey_inj {t u : TagInfo} (wf : WellFormed t.digest) (wf' : WellFormed u.digest)
  (same : tagKey t = tagKey u) : t.tag = u.tag ∧ t.digest = u.digest := by
 have reversed := congrArg List.reverse same
 unfold tagKey at reversed
 simp only [List.reverse_append, List.reverse_cons, List.append_assoc,
  List.singleton_append] at reversed
 obtain ⟨digest, name⟩ :=
  append_sep_inj (by simpa using hashString_clean wf) (by simpa using hashString_clean wf')
  reversed
 exact ⟨List.reverse_injective name, hashString_inj wf wf' (List.reverse_injective digest)⟩

section Order

variable {a b c : TagInfo}

theorem newer_iff : newer a b = true ↔ b.created < a.created ∨ a.created = b.created ∧
  (hashString a.digest < hashString b.digest ∨
   hashString a.digest = hashString b.digest ∧ a.tag < b.tag) := by
 unfold newer
 by_cases time : a.created = b.created
 · by_cases digest : hashString a.digest = hashString b.digest
   · simp [time, digest]
   · simp [time, digest]
 · simp [time]

theorem newer_asymm (first : newer a b = true) : ¬ newer b a = true := by
 rw [newer_iff] at first ⊢
 grind

theorem newer_total : newer b a = false ∨ newer a b = false := by
 have asymm := @newer_asymm a b
 grind

theorem newer_false_trans (first : newer b a = false) (second : newer c b = false) :
  newer c a = false := by
 rw [← Bool.not_eq_true, newer_iff] at first second ⊢
 grind

theorem eq_of_not_newer (wf : WellFormed a.digest) (wf' : WellFormed b.digest)
  (first : newer b a = false)
  (second : newer a b = false) : a.tag = b.tag ∧ a.digest = b.digest := by
 rw [← Bool.not_eq_true, newer_iff] at first second
 have digest : hashString a.digest = hashString b.digest := by grind
 exact ⟨by grind, hashString_inj wf wf' digest⟩

end Order

structure Distinct (tags : List TagInfo) : Prop where
 pairs : (tags.map fun t => (t.tag, t.digest)).Nodup
 digests : ∀ t ∈ tags, WellFormed t.digest

section Groups

variable {tags : List TagInfo} {t u : TagInfo}

theorem Distinct.perm {tags' : List TagInfo} (distinct : Distinct tags) (perm : tags'.Perm tags) :
  Distinct tags' where
 pairs := (perm.map _).nodup_iff.mpr distinct.pairs
 digests t member := distinct.digests t (perm.mem_iff.mp member)

theorem Distinct.eq (distinct : Distinct tags) (member : t ∈ tags) (other : u ∈ tags)
  (same : t.tag = u.tag ∧ t.digest = u.digest) : t = u :=
 List.inj_on_of_nodup_map distinct.pairs member other (Prod.ext same.1 same.2)

theorem Distinct.eq_of_key (distinct : Distinct tags) (member : t ∈ tags) (other : u ∈ tags)
  (same : tagKey t = tagKey u) : t = u :=
 distinct.eq member other (tagKey_inj (distinct.digests t member) (distinct.digests u other) same)

theorem Distinct.nodup (distinct : Distinct tags) : tags.Nodup := distinct.pairs.of_map _

theorem pairwise_sort (tags : List TagInfo) :
  (sortTagsNewest tags).Pairwise fun a b => newer b a = false := by
 have : Std.Total fun a b : TagInfo => newer b a = false := ⟨fun _ _ => newer_total⟩
 have : IsTrans TagInfo fun a b => newer b a = false := ⟨fun _ _ _ => newer_false_trans⟩
 exact List.pairwise_insertionSort _ tags

theorem Distinct.ordered (distinct : Distinct tags) :
  (sortTagsNewest tags).Pairwise fun a b => newer a b = true := by
 have sorted := distinct.perm (sort_perm tags)
 apply ((pairwise_sort tags).and sorted.nodup).imp_of_mem
 rintro a b left right ⟨weak, other⟩
 by_contra unordered
 have same := eq_of_not_newer (sorted.digests a left) (sorted.digests b right) weak
  (Bool.not_eq_true _ ▸ unordered)
 exact other (sorted.eq left right same)

theorem Distinct.sort_eq {tags' : List TagInfo} (distinct : Distinct tags)
  (perm : tags'.Perm tags) :
  sortTagsNewest tags' = sortTagsNewest tags := by
 apply List.Perm.eq_of_pairwise _ (pairwise_sort tags') (pairwise_sort tags)
  ((sort_perm tags').trans (perm.trans (sort_perm tags).symm))
 intro a b left right first second
 have inside := perm.mem_iff.mp ((sort_perm tags').mem_iff.mp left)
 have other := (sort_perm tags).mem_iff.mp right
 exact distinct.eq inside other
  (eq_of_not_newer (distinct.digests a inside) (distinct.digests b other) first second)

end Groups

def dated (t : TagInfo) : Bool := t.created ≠ 0

def countRules (cal : Calendar) (p : Policy) : List (Int × (TagInfo → Str)) :=
 [(p.keepLast, tagKey),
  (p.keepHourly, fun t => cal.format (lit "2006010215") t.created),
  (p.keepDaily, fun t => cal.format (lit "20060102") t.created),
  (p.keepWeekly, fun t => fmtKey (cal.isoWeek t.created).1 (cal.isoWeek t.created).2),
  (p.keepMonthly, fun t => cal.format (lit "200601") t.created),
  (p.keepYearly, fun t => cal.format (lit "2006") t.created)]

section Marking

variable {n : Int} {bucket : TagInfo → Str} {key : Str}

theorem mem_markLoop (tags : List TagInfo) (seen : List Str) (kept : Int) (selected : List Str) :
  key ∈ markLoop n bucket tags seen kept selected ↔
   key ∈ selected ∨ ∃ t ∈ (firsts bucket seen (tags.filter dated)).take (n - kept).toNat, tagKey t =
   key := by
 induction tags generalizing seen kept selected with
 | nil => simp [markLoop, firsts]
 | cons t rest ih =>
  rw [markLoop]
  by_cases undated : t.created = 0
  · have skipped : dated t = false := by simp [dated, undated]
    rw [if_pos undated, ih, List.filter_cons_of_neg (by simp [skipped])]
  · have counted : dated t = true := by simp [dated, undated]
    rw [if_neg undated, List.filter_cons_of_pos counted, firsts]
    by_cases old : bucket t ∈ seen
    · rw [if_pos old, if_pos old, ih]
    · rw [if_neg old, if_neg old]
      by_cases full : n ≤ kept
      · have none_left : (n - kept).toNat = 0 := by omega
        rw [if_pos full, ih, none_left]
        simp
      · have one_more : (n - kept).toNat = (n - (kept + 1)).toNat + 1 := by omega
        rw [if_neg full, ih, one_more, List.take_succ_cons]
        simp only [List.mem_cons, exists_eq_or_imp]
        grind

theorem mem_markFirst (tags : List TagInfo) (selected : List Str) :
  key ∈ markFirst n bucket tags selected ↔
   key ∈ selected ∨ ∃ t ∈ (firsts bucket [] (tags.filter dated)).take n.toNat, tagKey t = key := by
 unfold markFirst
 by_cases off : n ≤ 0
 · have none_left : n.toNat = 0 := by omega
   simp [off, none_left]
 · rw [if_neg off, mem_markLoop, Int.sub_zero]

theorem mem_selectedKeys (cal : Calendar) (p : Policy) (now : Time) (ordered : List TagInfo) :
  key ∈ selectedKeys cal p now ordered ↔
   (∃ t ∈ ordered, marks p now t = true ∧ tagKey t = key) ∨
    ∃ rule ∈ countRules cal p,
     ∃ t ∈ (firsts rule.2 [] (ordered.filter dated)).take rule.1.toNat, tagKey t = key := by
 unfold selectedKeys countRules
 simp only [mem_markFirst, List.mem_map, List.mem_filter, List.mem_cons, List.not_mem_nil, or_false,
  exists_eq_or_imp, exists_eq_left, and_assoc, or_assoc]

end Marking

/-- The tag is the first dated one of its bucket, and fewer than `n` other buckets have one before
it. -/
def AmongFirst (n : Int) (bucket : TagInfo → Str) (tags : List TagInfo) (t : TagInfo) : Prop :=
 IsFirst (fun a b => newer a b = true) bucket (tags.filter dated) t ∧
  ((earlierBuckets (fun a b => newer a b = true) bucket (tags.filter dated) t).card : Int) < n

def Keeps (cal : Calendar) (p : Policy) (now : Time) (tags : List TagInfo) (t : TagInfo) : Prop :=
 t.created = 0 ∨ matchesAny t.tag p.keepTags = true ∨
  (0 < p.keepWithin ∧ now - p.keepWithin ≤ t.created) ∨
  ∃ rule ∈ countRules cal p, 0 < rule.1 ∧ AmongFirst rule.1 rule.2 tags t

section Union

variable {cal : Calendar} {p : Policy} {now : Time} {tags : List TagInfo} {t : TagInfo}

theorem isFirst_perm {tags' : List TagInfo} {bucket : TagInfo → Str} (perm : tags'.Perm tags) :
  IsFirst (fun a b => newer a b = true) bucket (tags'.filter dated) t ↔
   IsFirst (fun a b => newer a b = true) bucket (tags.filter dated) t := by
 have same := perm.filter dated
 unfold IsFirst
 rw [same.mem_iff]
 exact and_congr_right fun _ => forall_congr' fun b => by rw [same.mem_iff]

theorem earlierBuckets_perm {tags' : List TagInfo} {bucket : TagInfo → Str}
  (perm : tags'.Perm tags) :
  earlierBuckets (fun a b => newer a b = true) bucket (tags'.filter dated) t =
   earlierBuckets (fun a b => newer a b = true) bucket (tags.filter dated) t := by
 ext k
 simp only [earlierBuckets, List.mem_toFinset, List.mem_map, List.mem_filter, decide_eq_true_eq,
  perm.mem_iff, isFirst_perm perm]

theorem mem_rule_iff (distinct : Distinct tags) (n : Int) (bucket : TagInfo → Str) :
  t ∈ (firsts bucket [] ((sortTagsNewest tags).filter dated)).take n.toNat ↔
   0 < n ∧ AmongFirst n bucket tags t := by
 have ordered := distinct.ordered.sublist (List.filter_sublist (p := dated))
 rw [mem_take_firsts_iff (fun a b => newer_asymm) ordered, isFirst_perm (sort_perm tags),
  earlierBuckets_perm (sort_perm tags)]
 unfold AmongFirst
 constructor
 · rintro ⟨first, few⟩
   exact ⟨by omega, first, by omega⟩
 · rintro ⟨-, first, few⟩
   exact ⟨first, by omega⟩

theorem selected_iff (distinct : Distinct tags) (member : t ∈ tags) :
  tagKey t ∈ selectedKeys cal p now (sortTagsNewest tags) ↔ Keeps cal p now tags t := by
 -- a key stands for one tag of the group only
 have one_tag {l : List TagInfo} (inside : ∀ u ∈ l, u ∈ tags) : (∃ u ∈ l, tagKey u = tagKey t) ↔
   t ∈ l := by
  constructor
  · rintro ⟨u, found, same⟩
    exact distinct.eq_of_key (inside u found) member same ▸ found
  · exact fun found => ⟨t, found, rfl⟩
 have sorted : ∀ u ∈ sortTagsNewest tags, u ∈ tags :=
  fun u found => (sort_perm tags).mem_iff.mp found
 have marked : (∃ u ∈ sortTagsNewest tags, marks p now u = true ∧ tagKey u = tagKey t) ↔
   marks p now t = true := by
  constructor
  · rintro ⟨u, found, marked, same⟩
    exact distinct.eq_of_key (sorted u found) member same ▸ marked
  · exact fun marked => ⟨t, (sort_perm tags).mem_iff.mpr member, marked, rfl⟩
 have counted (rule : Int × (TagInfo → Str)) :
   (∃ u ∈ (firsts rule.2 [] ((sortTagsNewest tags).filter dated)).take rule.1.toNat,
    tagKey u = tagKey t) ↔
    0 < rule.1 ∧ AmongFirst rule.1 rule.2 tags t := by
  rw [one_tag, mem_rule_iff distinct]
  intro u found
  exact sorted u (List.mem_of_mem_filter (firsts_sublist.subset (List.mem_of_mem_take found)))
 rw [mem_selectedKeys, marked]
 simp only [counted]
 unfold Keeps marks
 simp only [Bool.or_eq_true, Bool.and_eq_true, decide_eq_true_eq, or_assoc]

end Union

/-- A group keeps the tags that some rule keeps and removes the others, and neither list depends on
the order in which the tags are given. -/
theorem applyOne_keeps_union (cal : Calendar) (p : Policy) (now : Time) (tags : List TagInfo)
  (distinct : Distinct tags) :
  (∀ t ∈ tags, (t ∈ (applyOne cal p now tags).1 ↔ Keeps cal p now tags t) ∧
   (t ∈ (applyOne cal p now tags).2 ↔ ¬ Keeps cal p now tags t)) ∧
  ∀ tags', tags'.Perm tags → applyOne cal p now tags' = applyOne cal p now tags := by
 constructor
 · intro t member
   unfold applyOne
   dsimp only
   rw [List.mem_filter, List.mem_filter, decide_eq_true_eq, decide_eq_true_eq,
    selected_iff distinct member,
    (sort_perm tags).mem_iff]
   exact ⟨and_iff_right member, and_iff_right member⟩
 · intro tags' perm
   unfold applyOne
   rw [distinct.sort_eq perm]

def twoDays : Policy :=
 { perStem with keepLast := 0, keepDaily := 2, scope := none, groupBy := none }

def tenths : Calendar := ⟨fun _ t => decimalInt (t / 10), fun _ => (0, 0)⟩

def dailyTags : List TagInfo :=
 [tagAt "b" 31, tagAt "e" 0, tagAt "a" 35, tagAt "c" 22, tagAt "d" 14]

theorem two_days_kept : Distinct dailyTags ∧ Keeps tenths twoDays 40 dailyTags (tagAt "c" 22) ∧
  ¬ Keeps tenths twoDays 40 dailyTags (tagAt "b" 31) ∧
  ¬ Keeps tenths twoDays 40 dailyTags (tagAt "d" 14) ∧
  applyOne tenths twoDays 40 dailyTags.reverse = applyOne tenths twoDays 40 dailyTags := by
 have distinct : Distinct dailyTags := by
  refine ⟨by decide +kernel, ?_⟩
  have clean : ∀ t ∈ dailyTags,
   ((58 : UInt8) ∉ t.digest.algorithm ∧ (0 : UInt8) ∉ t.digest.algorithm) ∧
    (0 : UInt8) ∉ t.digest.hex := by decide +kernel
  exact fun t member => ⟨(clean t member).1, (clean t member).2⟩
 obtain ⟨judged, any_order⟩ := applyOne_keeps_union tenths twoDays 40 dailyTags distinct
 exact ⟨distinct, (judged _ (by decide +kernel)).1.mp (by decide +kernel),
  (judged _ (by decide +kernel)).2.mp (by decide +kernel),
  (judged _ (by decide +kernel)).2.mp (by decide +kernel), any_order _ (List.reverse_perm _)⟩

end BackImage.Registry.RetentionRules
