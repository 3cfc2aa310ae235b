/- source: internal/cli/repo.go
  digest: A prune deletes the manifests of the planned tags, or it deletes nothing. -/

import BackImage.Lib.Sequence
import BackImage.Registry.PlanIsolation

namespace BackImage.Cli.Prune

open Go.Text Index.Model Lib.Sequence Registry.PlanIsolation Registry.Retention
open Restore.OciLayout (hashString)

/-- Why `pruneDelete` failed. -/
inductive PruneError
 | noDigest (tag : Str)
 | shared (conflicts : List Str)
 | interrupted (digest cause : Str) (deleted planned : Nat)
 deriving DecidableEq

def digestLoop : List TagInfo → List Str → Except PruneError (List Str)
 | [], digests => .ok digests
 | t :: rest, digests =>
  if t.digest.algorithm = [] ∨ t.digest.hex = [] then .error (.noDigest t.tag)
  else if hashString t.digest ∈ digests then digestLoop rest digests
  else digestLoop rest (digests ++ [hashString t.digest])

def pruneDigests (remove : List TagInfo) : Except PruneError (List Str) := digestLoop remove []

def doomed (remove : List TagInfo) (digest : Str) : List Str :=
 (remove.filter fun t => hashString t.digest = digest).map TagInfo.tag

def survivors (all remove : List TagInfo) (digest : Str) : List Str :=
 (all.filter fun t => hashString t.digest = digest ∧ doomed remove digest ≠ [] ∧
  t.tag ∉ doomed remove digest).map TagInfo.tag

def conflictLine (all remove : List TagInfo) (digest : Str) : Str :=
 lit "  " ++ digest ++ lit "\n    da eliminare: " ++ joinWith (lit ", ") (doomed remove digest) ++
  lit "\n    conservati:   " ++ joinWith (lit ", ") (survivors all remove digest)

def conflictLoop (all remove : List TagInfo) : List TagInfo → List Str → List Str
 | [], _ => []
 | t :: rest, reported =>
  if survivors all remove (hashString t.digest) = [] ∨ hashString t.digest ∈ reported then
   conflictLoop all remove rest reported
  else conflictLine all remove (hashString t.digest) ::
   conflictLoop all remove rest (hashString t.digest :: reported)

def sharedManifestConflicts (all remove : List TagInfo) : List Str :=
 conflictLoop all remove remove []

def deleteLoop (deletion : Nat → Str → Option Str) (planned : Nat) :
  Nat → List Str → List Str → Effect (List Str) PruneError
 | _, [], requests => done requests
 | i, digest :: rest, requests =>
  match deletion i digest with
  | some cause => stop (requests ++ [digest]) (.interrupted digest cause i planned)
  | none => deleteLoop deletion planned (i + 1) rest (requests ++ [digest])

def pruneDelete (deletion : Nat → Str → Option Str) (all remove : List TagInfo) :
  Effect (List Str) PruneError :=
 match pruneDigests remove with
 | .error e => stop [] e
 | .ok digests =>
  if sharedManifestConflicts all remove ≠ [] then
   stop [] (.shared (sharedManifestConflicts all remove))
  else deleteLoop deletion digests.length 0 digests []

section Parts

variable {all remove : List TagInfo} {deletion : Nat → Str → Option Str}

theorem digestLoop_ok {tags : List TagInfo} {sofar digests : List Str} (distinct : sofar.Nodup)
  (listed : digestLoop tags sofar = .ok digests) : digests.Nodup ∧
   ∀ d, d ∈ digests ↔ d ∈ sofar ∨ d ∈ tags.map fun t => hashString t.digest := by
 induction tags generalizing sofar with
 | nil =>
  cases listed
  exact ⟨distinct, fun d => by simp⟩
 | cons t rest ih =>
  rw [digestLoop] at listed
  split at listed
  · cases listed
  split at listed
  · rename_i seen
    obtain ⟨nodup, members⟩ := ih distinct listed
    refine ⟨nodup, fun d => ?_⟩
    rw [members, List.map_cons, List.mem_cons]
    constructor
    · rintro (old | later)
      · exact .inl old
      · exact .inr (.inr later)
    · rintro (old | rfl | later)
      · exact .inl old
      · exact .inl seen
      · exact .inr later
  · rename_i fresh
    have grown : (sofar ++ [hashString t.digest]).Nodup := by
     rw [List.nodup_append]
     refine ⟨distinct, List.nodup_singleton _, ?_⟩
     rintro d old _ last rfl
     rw [List.mem_singleton.mp last] at old
     exact fresh old
    obtain ⟨nodup, members⟩ := ih grown listed
    refine ⟨nodup, fun d => ?_⟩
    rw [members, List.map_cons, List.mem_cons, List.mem_append, List.mem_singleton, or_assoc]

theorem pruneDigests_ok {digests : List Str} (listed : pruneDigests remove = .ok digests) :
  digests.Nodup ∧ ∀ d, d ∈ digests ↔ ∃ t ∈ remove, hashString t.digest = d := by
 obtain ⟨nodup, members⟩ := digestLoop_ok List.nodup_nil listed
 refine ⟨nodup, fun d => ?_⟩
 rw [members, List.mem_map]
 simp

theorem mem_doomed {digest name : Str} :
  name ∈ doomed remove digest ↔ ∃ t ∈ remove, hashString t.digest = digest ∧ t.tag = name := by
 simp [doomed, and_assoc]

theorem survivors_nil_of_loop {tags : List TagInfo} {t : TagInfo} (planned : t ∈ tags)
  (silent : conflictLoop all remove tags [] = []) :
  survivors all remove (hashString t.digest) = [] := by
 induction tags with
 | nil => cases planned
 | cons first rest ih =>
  rw [conflictLoop] at silent
  split at silent
  · rename_i passed
    rcases List.mem_cons.mp planned with rfl | later
    · exact passed.resolve_right List.not_mem_nil
    · exact ih later silent
  · cases silent

theorem named_of_silent (silent : sharedManifestConflicts all remove = []) {t r : TagInfo}
  (member : t ∈ all) (planned : r ∈ remove) (same : hashString t.digest = hashString r.digest) :
  ∃ s ∈ remove, s.tag = t.tag := by
 have none_left := survivors_nil_of_loop planned silent
 have some_doomed : doomed remove (hashString r.digest) ≠ [] := by
  apply List.ne_nil_of_mem
  exact mem_doomed.mpr ⟨r, planned, rfl, rfl⟩
 have named : t.tag ∈ doomed remove (hashString r.digest) := by
  by_contra unnamed
  have survivor : t.tag ∈ survivors all remove (hashString r.digest) :=
   List.mem_map.mpr ⟨t, List.mem_filter.mpr ⟨member, decide_eq_true ⟨same, some_doomed, unnamed⟩⟩,
    rfl⟩
  rw [none_left] at survivor
  cases survivor
 obtain ⟨s, inside, -, is⟩ := mem_doomed.mp named
 exact ⟨s, inside, is⟩

theorem deleteLoop_spec (planned i : Nat) (digests requests : List Str) :
  ∃ issued, issued <+: digests ∧
   (deleteLoop deletion planned i digests requests).state = requests ++ issued ∧
   ((deleteLoop deletion planned i digests requests).error = none → issued = digests) ∧
   ((∀ k d, issued[k]? = some d → deletion (i + k) d = none) →
    (deleteLoop deletion planned i digests requests).error = none) := by
 induction digests generalizing i requests with
 | nil => exact ⟨[], List.nil_prefix, (List.append_nil _).symm, fun _ => rfl, fun _ => rfl⟩
 | cons digest rest ih =>
  rw [deleteLoop]
  cases answer : deletion i digest with
  | some cause =>
   refine ⟨[digest], List.prefix_append [digest] rest, rfl, ?_, ?_⟩
   · intro well
     cases well
   · intro well
     have first := well 0 digest rfl
     rw [Nat.add_zero, answer] at first
     cases first
  | none =>
   obtain ⟨issued, front, state, whole, well⟩ := ih (i + 1) (requests ++ [digest])
   refine ⟨digest :: issued, List.cons_prefix_cons.mpr ⟨rfl, front⟩, ?_, ?_, ?_⟩
   · rw [state, List.append_assoc]
     rfl
   · intro ended
     rw [whole ended]
   · intro answers
     apply well
     intro k d at_k
     have next := answers (k + 1) d at_k
     rw [Nat.add_comm k 1, ← Nat.add_assoc] at next
     exact next

end Parts

section Plan

variable {cal : Calendar} {p : Policy} {tags : List TagInfo} {now : Time}
 {deletion : Nat → Str → Option Str}

theorem remove_nil_of_empty (noRules : p.empty = true) : (planFor cal p tags now).remove = [] := by
 unfold planFor
 dsimp only
 rw [if_pos noRules]

theorem mem_of_remove {t : TagInfo} (planned : t ∈ (planFor cal p tags now).remove) : t ∈ tags := by
 cases rules : p.empty with
 | false => exact (mem_keep_or_remove rules).mpr (.inr planned)
 | true =>
  rw [remove_nil_of_empty rules] at planned
  cases planned

theorem not_kept_of_removed (named : (tags.map TagInfo.tag).Nodup) {t : TagInfo}
  (planned : t ∈ (planFor cal p tags now).remove) : t ∉ (planFor cal p tags now).keep := by
 cases rules : p.empty with
 | true =>
  rw [remove_nil_of_empty rules] at planned
  cases planned
 | false =>
  have nodup := (@keep_remove_perm cal p now tags rules).nodup_iff.mpr (List.Nodup.of_map _ named)
  intro kept
  exact (List.nodup_append.mp nodup).2.2 t kept t planned rfl

theorem loose_not_removed {t : TagInfo} (member : t ∈ tags)
  (loose : p.reaches t = false ∨ p.groupOf t = none ∨ t.created = 0) :
  t ∉ (planFor cal p tags now).remove := by
 cases rules : p.empty with
 | false => exact (spared_of_loose rules member loose).2
 | true =>
  rw [remove_nil_of_empty rules]
  exact List.not_mem_nil

structure Contained (tags remove : List TagInfo) (deletion : Nat → Str → Option Str)
  (outcome : Effect (List Str) PruneError) : Prop where
 distinct : outcome.state.Nodup
 planned : ∀ t ∈ tags, hashString t.digest ∈ outcome.state → t ∈ remove
 complete : outcome.error = none → ∀ t ∈ remove, hashString t.digest ∈ outcome.state
 answered : outcome.state ≠ [] →
  (∀ i d, outcome.state[i]? = some d → deletion i d = none) → outcome.error = none

theorem contained_of_refused {remove : List TagInfo} {e : PruneError} :
  Contained tags remove deletion (stop [] e) where
 distinct := List.nodup_nil
 planned := fun _ _ none_there => absurd none_there List.not_mem_nil
 complete := fun well => by cases well
 answered := fun some_there => absurd rfl some_there

theorem pruneDelete_contained (named : (tags.map TagInfo.tag).Nodup) {remove : List TagInfo}
  (planned : ∀ t ∈ remove, t ∈ tags) :
  Contained tags remove deletion (pruneDelete deletion tags remove) := by
 unfold pruneDelete
 cases listed : pruneDigests remove with
 | error e => exact contained_of_refused
 | ok digests =>
  dsimp only
  split
  · exact contained_of_refused
  · rename_i silent
    obtain ⟨nodup, members⟩ := pruneDigests_ok listed
    obtain ⟨issued, front, state, whole, well⟩ :=
     @deleteLoop_spec deletion digests.length 0 digests []
    rw [List.nil_append] at state
    refine ⟨?_, ?_, ?_, ?_⟩
    · rw [state]
      exact nodup.sublist front.sublist
    · intro t member requested
      rw [state] at requested
      obtain ⟨r, doomedTag, same⟩ := (members _).mp (front.subset requested)
      obtain ⟨s, inside, is⟩ := named_of_silent (not_ne_iff.mp silent) member doomedTag same.symm
      have equal := List.inj_on_of_nodup_map named (planned s inside) member is
      rw [← equal]
      exact inside
    · intro ended t inside
      rw [state, whole ended]
      exact (members _).mpr ⟨t, inside, rfl⟩
    · intro _ answers
      apply well
      intro k d at_k
      rw [Nat.zero_add]
      apply answers k d
      rw [state]
      exact at_k

/-- Under every policy and at every time a prune of tags with distinct names deletes the planned
tags or nothing. -/
theorem pruneDelete_planned (cal : Calendar) (p : Policy) (tags : List TagInfo) (now : Time)
  (deletion : Nat → Str → Option Str) (named : (tags.map TagInfo.tag).Nodup) :
  let plan := planFor cal p tags now
  let outcome := pruneDelete deletion tags plan.remove
  (outcome.state = [] ∨ outcome.state.Nodup ∧
   (∀ t ∈ tags, hashString t.digest ∈ outcome.state → t ∈ plan.remove) ∧
   ((∀ i d, outcome.state[i]? = some d → deletion i d = none) →
    ∀ t ∈ tags, hashString t.digest ∈ outcome.state ↔ t ∈ plan.remove)) ∧
  (outcome.error = none → ∀ t ∈ tags, hashString t.digest ∈ outcome.state ↔ t ∈ plan.remove) ∧
  ∀ t ∈ tags, p.reaches t = false ∨ p.groupOf t = none ∨ t.created = 0 ∨ t ∈ plan.keep →
   hashString t.digest ∉ outcome.state := by
 intro plan outcome
 have contained : Contained tags plan.remove deletion outcome :=
  pruneDelete_contained named fun _ => mem_of_remove
 have exactly : outcome.error = none →
   ∀ t ∈ tags, hashString t.digest ∈ outcome.state ↔ t ∈ plan.remove :=
  fun ended t member => ⟨contained.planned t member, contained.complete ended t⟩
 refine ⟨?_, exactly, ?_⟩
 · by_cases silent : outcome.state = []
   · exact .inl silent
   · refine .inr ⟨contained.distinct, contained.planned, ?_⟩
     intro answers
     exact exactly (contained.answered silent answers)
 · intro t member spared requested
   have removed := contained.planned t member requested
   rcases spared with outside | ungrouped | undated | kept
   · exact loose_not_removed member (.inl outside) removed
   · exact loose_not_removed member (.inr (.inl ungrouped)) removed
   · exact loose_not_removed member (.inr (.inr undated)) removed
   · exact not_kept_of_removed named removed kept

def sharedTags : List TagInfo :=
 [tagAt "db3" 20, tagAt "db2" 10, tagAt "db1" 5,
  { tagAt "db0" 5 with digest := (tagAt "db1" 5).digest }, tagAt "ap1" 3]

def secondFails : Nat → Str → Option Str := fun i _ => if i = 1 then some (lit "EOF") else none

theorem shared_manifest_deleted_once : (sharedTags.map TagInfo.tag).Nodup ∧
  (pruneDelete secondFails sharedTags
   (planFor plainCalendar perStem sharedTags 30).remove) =
    stop [lit "sha256:db2", lit "sha256:db1"] (.interrupted (lit "sha256:db1") (lit "EOF") 1 2) ∧
  ∀ t ∈ sharedTags, t ∈ (planFor plainCalendar perStem sharedTags 30).keep →
   hashString t.digest ∉ (pruneDelete secondFails sharedTags
    (planFor plainCalendar perStem sharedTags 30).remove).state := by
 have named : (sharedTags.map TagInfo.tag).Nodup := by decide +kernel
 refine ⟨named, by decide +kernel, ?_⟩
 intro t member kept
 exact (pruneDelete_planned plainCalendar perStem sharedTags 30 secondFails named).2.2 t member
  (.inr (.inr (.inr kept)))

end Plan

end BackImage.Cli.Prune
