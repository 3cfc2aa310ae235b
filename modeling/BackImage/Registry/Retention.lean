/- source: pkg/registry/retention.go
  digest: Which tags a retention policy keeps and which it removes, group by group. -/

import BackImage.Go.Glob
import BackImage.Index.Model
import BackImage.Lib.Grouping
import BackImage.Restore.OciLayout
import Mathlib.Data.List.Sort

namespace BackImage.Registry.Retention

open Go.Glob Go.Text Index.Model Lib.Grouping Restore.OciLayout

structure TagInfo where
 tag : Str
 digest : Hash
 created : Time
 size : Int64
 backimage : Option Manifest
 deriving DecidableEq

structure Policy where
 keepLast : Int
 keepHourly : Int
 keepDaily : Int
 keepWeekly : Int
 keepMonthly : Int
 keepYearly : Int
 keepWithin : Int
 keepTags : List Str
 scope : Option (Str → Bool)
 groupBy : Option (Str → Option (Str × List Str))

structure Calendar where
 format : Str → Time → Str
 isoWeek : Time → Int × Int

def Policy.empty (p : Policy) : Bool :=
 p.keepLast ≤ 0 && p.keepHourly ≤ 0 && p.keepDaily ≤ 0 && p.keepWeekly ≤ 0 && p.keepMonthly ≤ 0 &&
  p.keepYearly ≤ 0 && p.keepWithin ≤ 0 && p.keepTags.isEmpty

structure GroupResult where
 key : Str
 tags : Nat
 keep : List TagInfo
 remove : List TagInfo

structure Plan where
 total : Nat
 inScope : Nat
 ungrouped : Nat
 groups : List GroupResult
 untouched : List TagInfo
 keep : List TagInfo
 remove : List TagInfo

/-- The comparison of `sortTagsNewest`. -/
def newer (a b : TagInfo) : Bool :=
 if a.created ≠ b.created then b.created < a.created
 else if hashString a.digest ≠ hashString b.digest then hashString a.digest < hashString b.digest
 else a.tag < b.tag

def sortTagsNewest (tags : List TagInfo) : List TagInfo :=
 tags.insertionSort fun a b => newer b a = false

def tagKey (t : TagInfo) : Str := t.tag ++ 0 :: hashString t.digest

def fmtKey (year week : Int) : Str := decimalInt year ++ lit "-W" ++ decimalInt week

def matchesAny (tag : Str) (patterns : List Str) : Bool :=
 patterns.any fun pattern => matchPath pattern tag = some true

def markLoop (n : Int) (bucket : TagInfo → Str) : List TagInfo → List Str → Int → List Str →
  List Str
 | [], _, _, selected => selected
 | t :: rest, seen, kept, selected =>
  if t.created = 0 then markLoop n bucket rest seen kept selected
  else if bucket t ∈ seen then markLoop n bucket rest seen kept selected
  else if n ≤ kept then markLoop n bucket rest seen kept selected
  else markLoop n bucket rest (bucket t :: seen) (kept + 1) (tagKey t :: selected)

def markFirst (n : Int) (bucket : TagInfo → Str) (tags : List TagInfo) (selected : List Str) :
  List Str :=
 if n ≤ 0 then selected else markLoop n bucket tags [] 0 selected

def marks (p : Policy) (now : Time) (t : TagInfo) : Bool :=
 t.created = 0 || matchesAny t.tag p.keepTags ||
  (0 < p.keepWithin && now - p.keepWithin ≤ t.created)

def selectedKeys (cal : Calendar) (p : Policy) (now : Time) (ordered : List TagInfo) : List Str :=
 let first := (ordered.filter (marks p now)).map tagKey
 let last := markFirst p.keepLast tagKey ordered first
 let hourly := markFirst p.keepHourly (fun t => cal.format (lit "2006010215") t.created)
  ordered last
 let daily := markFirst p.keepDaily (fun t => cal.format (lit "20060102") t.created) ordered hourly
 let weekly := markFirst p.keepWeekly
  (fun t => fmtKey (cal.isoWeek t.created).1 (cal.isoWeek t.created).2) ordered daily
 let monthly := markFirst p.keepMonthly (fun t => cal.format (lit "200601") t.created)
  ordered weekly
 markFirst p.keepYearly (fun t => cal.format (lit "2006") t.created) ordered monthly

def applyOne (cal : Calendar) (p : Policy) (now : Time) (tags : List TagInfo) :
  List TagInfo × List TagInfo :=
 let ordered := sortTagsNewest tags
 let selected := selectedKeys cal p now ordered
 (ordered.filter fun t => tagKey t ∈ selected, ordered.filter fun t => tagKey t ∉ selected)

def groupKeyFor (groupBy : Option (Str → Option (Str × List Str))) (tag : Str) : Option Str :=
 match groupBy with
 | none => some []
 | some re =>
  match re tag with
  | none => none
  | some (whole, []) => some whole
  | some (_, captures) => some (join 0 captures)

def Policy.reaches (p : Policy) (t : TagInfo) : Bool :=
 match p.scope with
 | none => true
 | some re => re t.tag

def Policy.groupOf (p : Policy) (t : TagInfo) : Option Str := groupKeyFor p.groupBy t.tag

def partition (p : Policy) (tags : List TagInfo) : Plan × List (Str × List TagInfo) × List Str :=
 let inScope := tags.filter p.reaches
 let buckets := group p.groupOf inScope
 let loose := inScope.filter fun t => (p.groupOf t).isNone
 (⟨tags.length, inScope.length, loose.length, [],
   (tags.filter fun t => !p.reaches t) ++ loose, [], []⟩,
  buckets, (buckets.map Prod.fst).insertionSort (· ≤ ·))

def Plan.finish (plan : Plan) : Plan :=
 { plan with
   keep := sortTagsNewest (plan.keep ++ plan.untouched)
   remove := sortTagsNewest plan.remove
   untouched := sortTagsNewest plan.untouched }

def Plan.withGroups (plan : Plan) (groups : List GroupResult) : Plan :=
 { plan with
   groups := groups
   keep := groups.flatMap GroupResult.keep
   remove := groups.flatMap GroupResult.remove }

def planFor (cal : Calendar) (p : Policy) (tags : List TagInfo) (now : Time) : Plan :=
 let (counted, buckets, keys) := partition p tags
 if p.empty then ⟨tags.length, counted.inScope, counted.ungrouped, [], tags, tags, []⟩
 else
  (counted.withGroups (keys.map fun key =>
   let bucket := (buckets.lookup key).getD []
   let (keep, remove) := applyOne cal p now bucket
   ⟨key, bucket.length, keep, remove⟩)).finish

def select (p : Policy) (tags : List TagInfo) : Plan :=
 let (counted, buckets, keys) := partition p tags
 (counted.withGroups (keys.map fun key =>
  let bucket := (buckets.lookup key).getD []
  ⟨key, bucket.length, sortTagsNewest bucket, []⟩)).finish

def Plan.selected (plan : Plan) : List TagInfo :=
 sortTagsNewest (plan.groups.flatMap fun g => g.keep ++ g.remove)

end BackImage.Registry.Retention
