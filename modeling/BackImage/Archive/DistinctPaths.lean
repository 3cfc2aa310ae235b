/- source: pkg/archive/writer.go
  digest: No two entries of an archive have the same path. -/

import BackImage.Archive.Layout

namespace BackImage.Archive.DistinctPaths

open Writer Layout Schedule Go.Path Go.Text
open Lib.Sequence

theorem mem_arcPaths {steps : List Step} {p : Str} :
  p ∈ arcPaths steps ↔ ∃ step ∈ steps, step.arcPath = some p := List.mem_filterMap

section Tree

variable {opts : Options} {devSeen : Option UInt64} {rel : Str}

theorem names_of_pathBelow {names names' : List FileName}
  (same : pathBelow rel names = pathBelow rel names') :
  names.map FileName.text = names'.map FileName.text := by
 have segments := congrArg (split slash) same
 rw [split_pathBelow, split_pathBelow] at segments
 exact List.append_cancel_left segments

theorem arcPaths_childSteps {fsRoot : Str} {cancelled : FileName → Option Str}
  {below : FileName → List Step} (names : List FileName) :
  arcPaths (childSteps fsRoot cancelled below names) =
   names.flatMap fun name => arcPaths (below name) := by
 induction names with
 | nil => rfl
 | cons name rest ih =>
  have front : childSteps fsRoot cancelled below (name :: rest) =
    .poll fsRoot (cancelled name) :: (below name ++ childSteps fsRoot cancelled below rest) := rfl
  have skipped : ∀ steps, arcPaths (.poll fsRoot (cancelled name) :: steps) = arcPaths steps :=
   fun steps => rfl
  rw [front, skipped, arcPaths, List.filterMap_append, List.flatMap_cons, ← ih]
  rfl

theorem nodup_walk {steps : List Step} (walk : Walk rel steps) : (arcPaths steps).Nodup := by
 induction walk with
 | leaf inner paths =>
  rcases paths with none_there | one
  · rw [none_there]
    exact List.nodup_nil
  · rw [one]
    exact List.nodup_singleton _
 | @directory rel fsPath fsRoot a st dirFile cancelled below names distinct each ih =>
  have lies : ∀ name, ∀ p ∈ arcPaths (below name), ∃ deeper,
    p = pathBelow rel (name :: deeper) := by
   intro name p inside
   obtain ⟨step, listed, path⟩ := mem_arcPaths.mp inside
   exact (each name).lies listed path
  have front : arcPaths (.emit rel fsPath a st dirFile :: childSteps fsRoot cancelled below names) =
    rel :: names.flatMap fun name => arcPaths (below name) := by
   rw [← arcPaths_childSteps]
   rfl
  rw [front, List.nodup_cons, List.nodup_flatMap]
  refine ⟨?_, fun name _ => ih name, distinct.imp ?_⟩
  · intro inside
    obtain ⟨name, -, here⟩ := List.mem_flatMap.mp inside
    obtain ⟨deeper, is⟩ := lies name rel here
    have top : pathBelow rel [] = pathBelow rel (name :: deeper) := is
    cases names_of_pathBelow top
  · intro name other differ p inFirst inSecond
    obtain ⟨deeper, is⟩ := lies name p inFirst
    obtain ⟨deeper', is'⟩ := lies other p inSecond
    have same : name.text = other.text :=
     (List.cons.inj (names_of_pathBelow (is.symm.trans is'))).1
    apply differ
    cases name
    cases other
    cases same
    rfl

theorem nodup_rootSteps {root : Str} (tree : Tree) :
  (arcPaths (rootSteps opts devSeen root tree)).Nodup := by
 unfold rootSteps
 split
 · exact List.nodup_nil
 · rename_i st _
   -- the first step visits no path
   change (arcPaths (rootBody opts (deviceAfter opts devSeen st) root st tree)).Nodup
   exact nodup_walk (walk_rootBody tree)

end Tree

section Roots

variable {opts : Options} {devSeen : Option UInt64}

theorem base_of_pathBelow {root root' : Str} {names names' : List FileName}
  (same : pathBelow (base root) names = pathBelow (base root') names') :
  base root = base root' := by
 have head : ∀ r : Str, ∀ ns : List FileName,
   (split slash (pathBelow (base r) ns)).head? =
    some (if base r = [slash] then [] else base r) := by
  intro r ns
  rw [split_pathBelow]
  rcases base_cases r with isRoot | ⟨-, single⟩
  · rw [isRoot, if_pos rfl]
    rfl
  · have notRoot : base r ≠ [slash] := by
     intro isRoot
     rw [isRoot] at single
     exact single List.mem_cons_self
    rw [split_of_not_mem single, if_neg notRoot]
    rfl
 have heads := (head root names).symm.trans ((congrArg (fun p => (split slash p).head?) same).trans
  (head root' names'))
 have firsts := Option.some.inj heads
 have filled : ∀ r, base r ≠ [slash] → base r ≠ [] := by
  intro r notRoot
  rcases base_cases r with isRoot | ⟨filled, -⟩
  · exact absurd isRoot notRoot
  · exact filled
 split at firsts
 · rename_i isRoot
   split at firsts
   · rename_i isRoot'
     rw [isRoot, isRoot']
   · rename_i notRoot'
     exact absurd firsts.symm (filled root' notRoot')
 · rename_i notRoot
   split at firsts
   · exact absurd firsts (filled root notRoot)
   · exact firsts

def entered : Step → Option Str
 | .enter root => some (base root)
 | _ => none

theorem entered_of_inner {step : Step} (inner : step.inner = true) : entered step = none := by
 cases step with
 | enter root => cases inner
 | abort _ | settle _ | poll _ _ | emit _ _ _ _ _ | skip | fault _ => rfl

theorem entered_rootSteps {root : Str} {tree : Tree} :
  (rootSteps opts devSeen root tree).filterMap entered = [] := by
 unfold rootSteps
 split
 · rfl
 · rename_i st _
   change (rootBody opts (deviceAfter opts devSeen st) root st tree).filterMap entered = []
   apply List.filterMap_eq_nil_iff.mpr
   intro step inside
   exact entered_of_inner ((walk_rootBody tree).inner step inside)

theorem entered_schedule (roots : List (Str × Tree)) :
  (schedule opts devSeen roots).filterMap entered = roots.map fun root => base (clean root.1) := by
 induction roots generalizing devSeen with
 | nil => rfl
 | cons root rest ih =>
  obtain ⟨root, tree⟩ := root
  have first : entered (.enter (clean root)) = some (base (clean root)) := rfl
  rw [schedule, List.cons_append, List.filterMap_cons_some first, List.filterMap_append,
   entered_rootSteps, ih]
  rfl

theorem nodup_schedule {roots : List (Str × Tree)}
  (distinct : (roots.map fun root => base (clean root.1)).Nodup) :
  (arcPaths (schedule opts devSeen roots)).Nodup := by
 induction roots generalizing devSeen with
 | nil => exact List.nodup_nil
 | cons root rest ih =>
  obtain ⟨root, tree⟩ := root
  rw [List.map_cons, List.nodup_cons] at distinct
  have cut : arcPaths (schedule opts devSeen ((root, tree) :: rest)) =
    arcPaths (rootSteps opts devSeen (clean root) tree) ++
     arcPaths (schedule opts (deviceBehind opts devSeen tree) rest) :=
   List.filterMap_append
  rw [cut, List.nodup_append]
  refine ⟨nodup_rootSteps tree, ih distinct.2, ?_⟩
  rintro p own q later rfl
  obtain ⟨step, listed, path⟩ := mem_arcPaths.mp own
  obtain ⟨names, is⟩ := arcPath_rootSteps listed path
  obtain ⟨step', listed', path'⟩ := mem_arcPaths.mp later
  obtain ⟨root', given, names', is'⟩ := arcPath_schedule listed' path'
  apply distinct.1
  rw [base_of_pathBelow (is.symm.trans is')]
  exact List.mem_map.mpr ⟨root', given, rfl⟩

end Roots

section Archive

variable {ar : Archiver} {w w' : TarWriter}

structure Taken (steps : List Step) (w : TarWriter) : Prop where
 bases : w.rootBases.map Prod.fst = (steps.filterMap entered).reverse
 distinct : (w.rootBases.map Prod.fst).Nodup

theorem taken_step {steps : List Step} {step : Step} (taken : Taken steps w)
  (well : perform ar step w = done w') : Taken (steps ++ [step]) w' := by
 have unchanged : entered step = none → w'.rootBases = w.rootBases →
   Taken (steps ++ [step]) w' := by
  intro none_taken same
  refine ⟨?_, by rw [same]; exact taken.distinct⟩
  rw [same, taken.bases, List.filterMap_append]
  simp [none_taken]
 cases step with
 | enter root =>
  rw [perform] at well
  split at well
  · exact absurd well stop_ne_done
  · rename_i absent
    have state := done_inj.mp well
    subst state
    have fresh : base root ∉ w.rootBases.map Prod.fst := by
     intro inside
     obtain ⟨pair, listed, same⟩ := List.mem_map.mp inside
     have differs := List.lookup_eq_none_iff.mp absent pair listed
     rw [same] at differs
     simp at differs
    refine ⟨?_, List.nodup_cons.mpr ⟨fresh, taken.distinct⟩⟩
    rw [List.filterMap_append, List.reverse_append]
    exact congrArg (base root :: ·) taken.bases
 | abort err => exact absurd well stop_ne_done
 | settle st =>
  rw [← done_inj.mp well] at unchanged ⊢
  exact unchanged rfl rfl
 | poll _ _ | emit _ _ _ _ _ | skip | fault _ =>
  have reached := congrArg (fun call => call.state.rootBases) well
  exact unchanged rfl (reached.symm.trans (perform_inner rfl).2)

theorem distinct_roots {roots : List (Str × Tree)} (well : addRoots ar roots newWriter = done w) :
  (roots.map fun root => base (clean root.1)).Nodup := by
 rw [addRoots_eq] at well
 have taken : Taken (schedule ar.opts none roots) w := by
  have start : Taken [] newWriter := ⟨rfl, List.nodup_nil⟩
  refine runAll_eq_done start ?_ well
  rintro before step u v - sofar called
  exact taken_step sofar called
 have bases := taken.distinct
 rw [taken.bases, List.nodup_reverse, entered_schedule] at bases
 exact bases

theorem paths_drafts (opts : Options) (steps : List Step) :
  ((drafts opts steps).map Entry.path).Sublist (arcPaths steps) := by
 induction steps with
 | nil => exact List.Sublist.slnil
 | cons step rest ih =>
  rw [drafts, arcPaths]
  cases made : draftOf opts step with
  | some d =>
   rw [List.filterMap_cons_some made, List.filterMap_cons_some (arcPath_of_draftOf made)]
   exact ih.cons_cons d.path
  | none =>
   rw [List.filterMap_cons_none made]
   cases path : step.arcPath with
   | none =>
    rw [List.filterMap_cons_none path]
    exact ih
   | some p =>
    rw [List.filterMap_cons_some path]
    exact ih.cons p

theorem distinct_paths {roots : List (Str × Tree)} {records : List Record}
  (well : addRoots ar roots newWriter = done w)
  (archived : Archived ar (schedule ar.opts none roots) records w) :
  (w.entries.map Entry.path).Nodup := by
 have drafted : (drafts ar.opts (schedule ar.opts none roots)).map Entry.path =
   w.entries.map Entry.path := by
  rw [archived.entries, List.map_map, ← List.forall₂_eq_eq_eq, List.forall₂_map_left_iff,
   List.forall₂_map_right_iff]
  exact archived.recorded.imp fun d r same => same.path.symm
 rw [← drafted]
 exact (nodup_schedule (distinct_roots well)).sublist (paths_drafts _ _)

end Archive

end BackImage.Archive.DistinctPaths
