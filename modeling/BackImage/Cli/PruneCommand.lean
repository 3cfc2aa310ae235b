/- source: internal/cli/repo.go, pkg/registry/retention.go
  digest: The command from its flags to its requests, and what a mistyped keep pattern costs. -/

import BackImage.Cli.Prune
import BackImage.Registry.RetentionRules
import BackImage.Server.Session

namespace BackImage.Cli.PruneCommand

open Prune Go.Glob Go.Text Index.Model Lib.Buckets Lib.Sequence Registry.PlanIsolation
open Registry.Retention
open Registry.RetentionRules
open Restore.OciLayout (hashString)
open Server.Session (blank)

structure Regexp where
 matchString : Str → Bool
 findStringSubmatch : Str → Option (Str × List Str)
 numSubexp : Nat

structure Readers where
 compile : Str → Except Str Regexp
 parseHumanDuration : Str → Except Str Int

structure Flags where
 keepLast : Int
 keepWithin : Option Str
 deleteOlderThan : Option Str
 keepTag : List Str
 tagRegex : Option Str
 groupByRegex : Option Str
 dryRun : Bool
 yes : Bool

inductive CommandError
 | repository (cause : Str)
 | duration (flag cause : Str)
 | notPositive (flag : Str)
 | sameRule
 | pattern (flag raw cause : Str)
 | noCapture
 | adapter (cause : Str)
 | listing (cause : Str)
 | unconfirmed (tags : Nat)
 | deletion (cause : PruneError)
 deriving DecidableEq

def pruneDuration (r : Readers) (flag : Str) : Option Str → Except CommandError (Option Int)
 | none => .ok none
 | some text =>
  match r.parseHumanDuration text with
  | .error cause => .error (.duration flag cause)
  | .ok d => if d ≤ 0 then .error (.notPositive flag) else .ok (some d)

def compileTagPattern (r : Readers) (expr : Str) : Except Str Regexp :=
 if blank expr then .error (lit "il pattern è vuoto; per selezionare ogni tag si scrive '.*'")
 else
  match r.compile expr with
  | .error cause => .error cause
  | .ok _ => r.compile (lit "\\A(?:" ++ expr ++ lit ")\\z")

def compileTagFlag (r : Readers) (flag : Str) : Option Str → Except CommandError (Option Regexp)
 | none => .ok none
 | some raw =>
  match compileTagPattern r raw with
  | .error cause => .error (.pattern flag raw cause)
  | .ok re => .ok (some re)

def tagSelectors (r : Readers) (flags : Flags) :
  Except CommandError (Option Regexp × Option Regexp) := do
 let scope ← compileTagFlag r (lit "tag-regex") flags.tagRegex
 let groupBy ← compileTagFlag r (lit "group-by-regex") flags.groupByRegex
 if groupBy.any fun re => re.numSubexp = 0 then .error .noCapture else .ok (scope, groupBy)

def prunePolicy (r : Readers) (flags : Flags) : Except CommandError Policy := do
 let keepWithin ← pruneDuration r (lit "keep-within") flags.keepWithin
 let olderThan ← pruneDuration r (lit "delete-older-than") flags.deleteOlderThan
 if keepWithin.isSome && olderThan.isSome then .error .sameRule
 else do
  let (scope, groupBy) ← tagSelectors r flags
  .ok { keepLast := flags.keepLast
        keepHourly := 0
        keepDaily := 0
        keepWeekly := 0
        keepMonthly := 0
        keepYearly := 0
        keepWithin := (olderThan.orElse fun _ => keepWithin).getD 0
        keepTags := flags.keepTag
        scope := scope.map Regexp.matchString
        groupBy := groupBy.map Regexp.findStringSubmatch }

structure Remote where
 newRepository : Option Str
 repoAdapter : Option Str
 listTags : Except Str (List TagInfo)
 deleteManifest : Nat → Str → Option Str

def runRepoPrune (r : Readers) (remote : Remote) (cal : Calendar) (flags : Flags) (now : Time) :
  Effect (List Str) CommandError :=
 match remote.newRepository with
 | some cause => stop [] (.repository cause)
 | none =>
  match prunePolicy r flags with
  | .error e => stop [] e
  | .ok p =>
   match remote.repoAdapter with
   | some cause => stop [] (.adapter cause)
   | none =>
    match remote.listTags with
    | .error cause => stop [] (.listing cause)
    | .ok tags =>
     let plan := planFor cal p tags now
     if plan.remove ≠ [] ∧ flags.dryRun = false ∧ flags.yes = false then
      stop [] (.unconfirmed plan.remove.length)
     else if flags.dryRun then done []
     else (pruneDelete remote.deleteManifest tags plan.remove).within id .deletion

def deleted (remote : Remote) (outcome : Effect (List Str) CommandError) : List Str :=
 (outcome.state.zipIdx.filter fun request => remote.deleteManifest request.2 request.1 = none).map
  Prod.fst

/-- A rule keeps the tag in its group: it (or a tag with its key) is undated, matches a pattern, is
young enough, or is among the first of a counting rule. A malformed pattern matches nothing. -/
def KeptByRule (cal : Calendar) (p : Policy) (now : Time) (members : List TagInfo) (t : TagInfo) :
  Prop :=
 (∃ u ∈ members, tagKey u = tagKey t ∧ (u.created = 0 ∨
   (∃ pattern ∈ p.keepTags, matchPath pattern u.tag = some true) ∨
   0 < p.keepWithin ∧ now - p.keepWithin ≤ u.created)) ∨
  ∃ rule ∈ countRules cal p,
   ∃ u ∈ (firsts rule.2 [] ((sortTagsNewest members).filter dated)).take rule.1.toNat,
    tagKey u = tagKey t

/-- The selectors reach the tag, and no rule keeps it in its group. -/
def Exposed (cal : Calendar) (p : Policy) (now : Time) (tags : List TagInfo) (t : TagInfo) : Prop :=
 ∃ key, place p t = some key ∧ ¬ KeptByRule cal p now (groupTags p key tags) t

variable {cal : Calendar} {p : Policy} {now : Time} {tags : List TagInfo}

section Patterns

variable {t : TagInfo}

theorem marks_iff (u : TagInfo) : marks p now u = true ↔ u.created = 0 ∨
   (∃ pattern ∈ p.keepTags, matchPath pattern u.tag = some true) ∨
   0 < p.keepWithin ∧ now - p.keepWithin ≤ u.created := by
 simp only [marks, matchesAny, Bool.or_eq_true, Bool.and_eq_true, decide_eq_true_eq,
  List.any_eq_true, or_assoc]

theorem selected_iff_keptByRule (members : List TagInfo) (t : TagInfo) :
  tagKey t ∈ selectedKeys cal p now (sortTagsNewest members) ↔ KeptByRule cal p now members t := by
 rw [mem_selectedKeys, KeptByRule]
 simp only [(sort_perm members).mem_iff, ← marks_iff, and_comm (a := tagKey _ = tagKey t)]

theorem mem_remove_iff (rules : p.empty = false) :
  t ∈ (planFor cal p tags now).remove ↔ t ∈ tags ∧ Exposed cal p now tags t := by
 rw [(remove_perm rules).mem_iff, List.mem_flatMap]
 simp only [Exposed, ← selected_iff_keptByRule]
 constructor
 · rintro ⟨key, -, removed⟩
   have member := mem_of_applyOne (.inr removed)
   obtain ⟨inside, placed⟩ := List.mem_filter.mp member
   exact ⟨inside, key, of_decide_eq_true placed, of_decide_eq_true (List.mem_filter.mp removed).2⟩
 · rintro ⟨inside, key, placed, dropped⟩
   have member : t ∈ groupTags p key tags := List.mem_filter.mpr ⟨inside, decide_eq_true placed⟩
   refine ⟨key, ?_, List.mem_filter.mpr ⟨(sort_perm _).mem_iff.mpr member, decide_eq_true dropped⟩⟩
   by_contra absent
   rw [groupTags_nil_of_absent absent] at member
   cases member

end Patterns

section Requests

variable {all remove : List TagInfo}

theorem digestLoop_refuses_iff (tags : List TagInfo) (sofar : List Str) :
  (∃ e, digestLoop tags sofar = .error e) ↔ ∃ t ∈ tags, t.digest.algorithm = [] ∨
  t.digest.hex = [] := by
 induction tags generalizing sofar with
 | nil => simp [digestLoop]
 | cons t rest ih =>
  rw [digestLoop]
  simp only [List.mem_cons, exists_eq_or_imp]
  split
  · rename_i bare
    simp [bare]
  · rename_i named
    rw [or_iff_right named]
    split
    · exact ih _
    · exact ih _

theorem mem_survivors {digest name : Str} (planned : doomed remove digest ≠ []) :
  name ∈ survivors all remove digest ↔
   ∃ u ∈ all, hashString u.digest = digest ∧ u.tag ∉ doomed remove digest ∧ u.tag = name := by
 simp only [survivors, List.mem_map, List.mem_filter, decide_eq_true_eq, and_assoc, planned, ne_eq,
  not_false_iff,
  true_and]

theorem conflictLoop_nil {tags : List TagInfo} {reported : List Str}
  (alone : ∀ t ∈ tags, survivors all remove (hashString t.digest) = []) :
  conflictLoop all remove tags reported = [] := by
 induction tags with
 | nil => rfl
 | cons t rest ih =>
  rw [conflictLoop, if_pos (.inl (alone t List.mem_cons_self))]
  exact ih fun u later => alone u (List.mem_cons_of_mem t later)

def Shared (all remove : List TagInfo) : Prop :=
 ∃ t ∈ remove, ∃ u ∈ all, hashString u.digest = hashString t.digest ∧
  ∀ v ∈ remove, hashString v.digest = hashString t.digest → v.tag ≠ u.tag

theorem conflicts_iff : sharedManifestConflicts all remove ≠ [] ↔ Shared all remove := by
 have other_name {t : TagInfo} (planned : t ∈ remove) :
   survivors all remove (hashString t.digest) ≠ [] ↔
    ∃ u ∈ all, hashString u.digest = hashString t.digest ∧
     ∀ v ∈ remove, hashString v.digest = hashString t.digest → v.tag ≠ u.tag := by
  have some_doomed : doomed remove (hashString t.digest) ≠ [] :=
   List.ne_nil_of_mem (mem_doomed.mpr ⟨t, planned, rfl, rfl⟩)
  rw [ne_eq, List.eq_nil_iff_forall_not_mem, not_forall_not]
  simp only [mem_survivors some_doomed, mem_doomed]
  constructor
  · rintro ⟨name, u, inside, same, unplanned, -⟩
    exact ⟨u, inside, same, fun v listed digest name => unplanned ⟨v, listed, digest, name⟩⟩
  · rintro ⟨u, inside, same, unplanned⟩
    exact ⟨u.tag, u, inside, same, fun ⟨v, listed, digest, name⟩ =>
     unplanned v listed digest name, rfl⟩
 constructor
 · intro reported
   by_contra unshared
   refine reported (conflictLoop_nil ?_)
   intro t planned
   by_contra survivor
   exact unshared ⟨t, planned, (other_name planned).mp survivor⟩
 · rintro ⟨t, planned, shared⟩ silent
   exact (other_name planned).mpr shared (survivors_nil_of_loop planned silent)

theorem pruneDelete_idle_iff (deletion : Nat → Str → Option Str) :
  (pruneDelete deletion all remove).state = [] ↔
   remove = [] ∨ (∃ t ∈ remove, t.digest.algorithm = [] ∨ t.digest.hex = []) ∨
   Shared all remove := by
 rw [← digestLoop_refuses_iff remove [], ← conflicts_iff]
 unfold pruneDelete
 cases listed : pruneDigests remove with
 | error e =>
  have refused : ∃ e, digestLoop remove [] = .error e := ⟨e, listed⟩
  simp [stop, refused]
 | ok digests =>
  have fine : ¬ ∃ e, digestLoop remove [] = .error e := by
   rintro ⟨e, refused⟩
   rw [pruneDigests, refused] at listed
   cases listed
  rw [or_iff_right fine]
  dsimp only
  split
  · rename_i reported
    simp [stop, reported]
  · rename_i silent
    rw [or_iff_left silent]
    obtain ⟨-, members⟩ := pruneDigests_ok listed
    obtain ⟨issued, -, state, whole, well⟩ := @deleteLoop_spec deletion digests.length 0 digests []
    -- the first request is made even if it fails
    have first : issued = [] ↔ digests = [] := by
     constructor
     · rintro rfl
       exact (whole (well fun k d none_there => by cases none_there)).symm
     · rintro rfl
       exact whole rfl
    rw [state, List.nil_append, first]
    constructor
    · intro none_listed
      apply List.eq_nil_iff_forall_not_mem.mpr
      intro t planned
      have requested := (members (hashString t.digest)).mpr ⟨t, planned, rfl⟩
      rw [none_listed] at requested
      cases requested
    · rintro rfl
      cases listed
      rfl

end Requests

/-- What keeps a command from deleting whatever its patterns are, and what leaves it nothing to
delete. -/
def Harmless (cal : Calendar) (flags : Flags) (p : Policy) (tags : List TagInfo) (now : Time) :
  Prop :=
 flags.dryRun = true ∨ flags.yes = false ∨ (∀ t ∈ tags, ¬ Exposed cal p now tags t) ∨
  (∃ t ∈ tags, Exposed cal p now tags t ∧ (t.digest.algorithm = [] ∨ t.digest.hex = [])) ∨
  ∃ t ∈ tags, Exposed cal p now tags t ∧ ∃ u ∈ tags, hashString u.digest = hashString t.digest ∧
   ∀ v ∈ tags, Exposed cal p now tags v → hashString v.digest = hashString t.digest → v.tag ≠ u.tag

/-- Some `--keep-tag` is a pattern `path.Match` reports a syntax error for. -/
def Mistyped (flags : Flags) : Prop :=
 ∃ pattern ∈ flags.keepTag, ∃ name, matchPath pattern name = none

section Command

variable {r : Readers} {flags : Flags}

theorem keepTags_of_accepted (accepted : prunePolicy r flags = .ok p) :
  p.keepTags = flags.keepTag := by
 unfold prunePolicy at accepted
 simp only [bind, Except.bind] at accepted
 grind

theorem rules_of_mistyped (accepted : prunePolicy r flags = .ok p) (mistyped : Mistyped flags) :
  p.empty = false := by
 obtain ⟨pattern, given, -⟩ := mistyped
 rw [← keepTags_of_accepted accepted] at given
 have some_pattern : p.keepTags.isEmpty = false := by
  cases listed : p.keepTags with
  | nil =>
   rw [listed] at given
   cases given
  | cons first rest => rfl
 simp [Policy.empty, some_pattern]

theorem runRepoPrune_state {remote : Remote} (accepted : prunePolicy r flags = .ok p)
  (listed : remote.listTags = .ok tags) : (runRepoPrune r remote cal flags now).state =
   if remote.newRepository = none ∧ remote.repoAdapter = none ∧ flags.dryRun = false ∧
   flags.yes = true then
    (pruneDelete remote.deleteManifest tags (planFor cal p tags now).remove).state
   else [] := by
 unfold runRepoPrune
 simp only [accepted, listed]
 cases remote.newRepository with
 | some cause => simp [stop]
 | none =>
  cases remote.repoAdapter with
  | some cause => simp [stop]
  | none =>
   cases dry : flags.dryRun with
   | true => simp [done]
   | false =>
    cases yes : flags.yes with
    | true => simp [Effect.within]
    | false =>
     by_cases nothing : (planFor cal p tags now).remove = []
     · simp [nothing, Effect.within, pruneDelete, pruneDigests, digestLoop, sharedManifestConflicts,
        conflictLoop, deleteLoop, done]
     · simp [nothing, stop]

theorem harmless_iff (rules : p.empty = false) (deletion : Nat → Str → Option Str) :
  Harmless cal flags p tags now ↔ flags.dryRun = true ∨ flags.yes = false ∨
   (pruneDelete deletion tags (planFor cal p tags now).remove).state = [] := by
 rw [pruneDelete_idle_iff, List.eq_nil_iff_forall_not_mem]
 unfold Harmless Shared
 simp only [mem_remove_iff rules, and_assoc, not_and, and_imp]

end Command

/-- Where the flags are accepted, a mistyped pattern lets a prune delete nothing exactly if the
prune could not delete anything without it either. -/
theorem mistyped_prune_harmless_iff (r : Readers) (cal : Calendar) (flags : Flags) (p : Policy)
  (tags : List TagInfo) (now : Time) (accepted : prunePolicy r flags = .ok p) :
  (Mistyped flags → ∀ remote : Remote, remote.listTags = .ok tags →
   deleted remote (runRepoPrune r remote cal flags now) = []) ↔
  ¬ Mistyped flags ∨ Harmless cal flags p tags now := by
 constructor
 · intro property
   by_cases mistyped : Mistyped flags
   · right
     have rules := rules_of_mistyped accepted mistyped
     rw [harmless_iff rules fun _ _ => none]
     -- the registry that grants every deletion
     have idle := property mistyped ⟨none, none, .ok tags, fun _ _ => none⟩ rfl
     rw [deleted, runRepoPrune_state accepted rfl] at idle
     cases dry : flags.dryRun with
     | true => exact .inl rfl
     | false =>
      cases yes : flags.yes with
      | false => exact .inr (.inl rfl)
      | true =>
       right
       right
       simpa [dry, yes] using idle
   · exact .inl mistyped
 · rintro (correct | harmless) mistyped remote listed
   · exact absurd mistyped correct
   · have rules := rules_of_mistyped accepted mistyped
     rw [harmless_iff rules remote.deleteManifest] at harmless
     have idle : (runRepoPrune r remote cal flags now).state = [] := by
      rw [runRepoPrune_state accepted listed]
      split
      · rename_i goes_on
        obtain ⟨-, -, real, confirmed⟩ := goes_on
        rcases harmless with dry | unconfirmed | idle
        · rw [real] at dry
          cases dry
        · rw [confirmed] at unconfirmed
          cases unconfirmed
        · exact idle
      · rfl
     rw [deleted, idle]
     rfl

def noReaders : Readers := ⟨fun _ => .error [], fun _ => .error []⟩

def openBracket : Flags := ⟨0, none, none, [lit "release-["], none, none, false, true⟩

def bracketPolicy : Policy :=
 { perStem with keepLast := 0, keepTags := [lit "release-["], scope := none, groupBy := none }

def oneRelease : List TagInfo := [tagAt "release-1" 10]

theorem release_deleted_by_typo : Mistyped openBracket ∧
  deleted ⟨none, none, .ok oneRelease, fun _ _ => none⟩
   (runRepoPrune noReaders ⟨none, none, .ok oneRelease, fun _ _ => none⟩ plainCalendar
    openBracket 30) =
    [lit "sha256:release-1"] :=
 ⟨⟨lit "release-[", List.mem_cons_self, [], by decide +kernel⟩, by decide +kernel⟩

theorem newest_kept_beside_typo :
  (Mistyped { openBracket with keepLast := 1 } → ∀ remote : Remote, remote.listTags =
   .ok oneRelease →
   deleted remote (runRepoPrune noReaders remote plainCalendar { openBracket with keepLast := 1 }
    30) = []) ∧
  Mistyped { openBracket with keepLast := 1 } := by
 refine ⟨(mistyped_prune_harmless_iff noReaders plainCalendar { openBracket with keepLast := 1 }
  { bracketPolicy with keepLast := 1 } oneRelease 30 rfl).mpr (.inr ?_), lit "release-[",
   List.mem_cons_self, [],
  by decide +kernel⟩
 refine .inr (.inr (.inl ?_))
 rintro t member ⟨key, placed, dropped⟩
 obtain rfl := List.mem_singleton.mp member
 cases placed
 -- the newest of its group, by the rule on the last tag
 exact dropped (.inr ⟨_, List.mem_cons_self, tagAt "release-1" 10, by decide +kernel, rfl⟩)

end BackImage.Cli.PruneCommand
