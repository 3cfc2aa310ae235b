/- source: none
  digest: The methods of a root directory over a tree of names, with the refusals of the system, and
    what they can do. -/

import BackImage.Go.Path
import BackImage.Lib.Filesystem
import Mathlib.Data.List.TakeWhile

namespace BackImage.Go.Root

open Lib.Filesystem Go.Path Text

inductive Special
 | char (major minor : Int64)
 | block (major minor : Int64)
 | fifo
 deriving DecidableEq

abbrev Disk := NameTree Str Bytes Str Special

abbrev Object := Node Bytes Str Special

/-- Why the system refuses a call that the tree would allow: `EPERM` and `EACCES`, the errors of an
unusable destination, `EOPNOTSUPP` and `EINVAL`, or others. -/
inductive Refusal
 | permission
 | unusable
 | unsupported
 | other
 deriving DecidableEq

abbrev OsErr := Errno Refusal

def rootHops (s : Str) : Option (List (Hop Str)) :=
 if s = [] ∨ s.head? = some slash then none
 else some ((solid (split slash s)).map fun x => if x = dotDot then .up else .down x)

def rootMaxSymlinks : Nat := 8

def find (follow : Bool) (disk : Disk) (name : Str) : Except OsErr (List Str) :=
 match rootHops name with
 | none => .error .escapes
 | some hops => resolve rootHops disk follow rootMaxSymlinks [] hops

def stat (follow : Bool) (refusal : Option Refusal) (disk : Disk) (name : Str) :
  Except OsErr (Nat × Object) :=
 match refusal with
 | some r => .error (.refused r)
 | none =>
  match find follow disk name with
  | .error e => .error e
  | .ok p =>
   match disk.names p with
   | none => .error .notExist
   | some i =>
    match disk.nodes i with
    | none => .error .notExist
    | some node => .ok (i, node)

def removeAll (refusal : Option (Refusal × List (Str × List Str))) (disk : Disk) (name : Str) :
  Disk × Option OsErr :=
 match find false disk name with
 | .error .notExist => (disk, none)
 | .error e => (disk, some e)
 | .ok p =>
  match refusal with
  | some (r, gone) => (gone.foldl (fun d q => d.erase (p ++ q.1 :: q.2)) disk, some (.refused r))
  | none => if p = [] then (disk, some (.refused .other)) else (disk.erase p, none)

def mkdirAll (limit : Limit Refusal) (disk : Disk) (name : Str) : Disk × Option OsErr :=
 match rootHops name with
 | none => (disk, some .escapes)
 | some hops =>
  Lib.Filesystem.mkdirAll rootHops
   (fun disk => match stat true none disk name with
    | .ok (_, .dir) => true
    | _ => false) rootMaxSymlinks disk limit [] hops

section Calls

variable (refusal : Option Refusal) (disk : Disk)

def openWrite (name : Str) : Except OsErr (Disk × Option Nat) :=
 match refusal with
 | some r => .error (.refused r)
 | none =>
  match find true disk name with
  | .error e => .error e
  | .ok p =>
   match disk.names p with
   | none => .ok (disk.create p (.file []), some disk.next)
   | some i =>
    match disk.nodes i with
    | some (.file _) => .ok (disk.rewrite i [], some i)
    | some (.device _) => .ok (disk, none)
    | some .dir => .error .isDir
    | some (.link _) | none => .error .loop

def writeTo (disk : Disk) (content : Bytes) : Option Nat → Disk
 | some i => disk.rewrite i content
 | none => disk

def make (name : Str) (node : Object) : Except OsErr Disk :=
 match refusal with
 | some r => .error (.refused r)
 | none =>
  match find false disk name with
  | .error e => .error e
  | .ok p => if disk.names p = none then .ok (disk.create p node) else .error .exist

def mknodAt (parent : List Str) (base : Str) (node : Object) : Except OsErr Disk :=
 match refusal with
 | some r => .error (.refused r)
 | none =>
  if disk.look parent ≠ some .dir then .error .notDir
  else if disk.names (parent ++ [base]) = none then .ok (disk.create (parent ++ [base]) node)
  else .error .exist

def link (old new : Str) : Except OsErr Disk :=
 match stat false refusal disk old with
 | .error e => .error e
 | .ok (i, node) =>
  if node = .dir then .error (.refused .permission)
  else
   match find false disk new with
   | .error e => .error e
   | .ok p => if disk.names p = none then .ok (disk.attach p i) else .error .exist

def remove (name : Str) : Disk × Option OsErr :=
 match refusal with
 | some r => (disk, some (.refused r))
 | none =>
  match find false disk name with
  | .error e => (disk, some e)
  | .ok p => if p = [] then (disk, some .isDir) else (disk.erase p, none)

def openDir (name : Str) : Except OsErr (List Str) :=
 match refusal with
 | some r => .error (.refused r)
 | none =>
  match find true disk name with
  | .error e => .error e
  | .ok p => if disk.names p = none then .error .notExist else .ok p

def statAt (parent : List Str) (base : Str) : Except OsErr Nat :=
 match refusal with
 | some r => .error (.refused r)
 | none =>
  match disk.names (parent ++ [base]) with
  | none => .error .notExist
  | some i => .ok i

end Calls

section Ordinary

variable {p : List Str} {x : Str}

theorem rootHops_ordinary (filled : p ≠ []) (ordinary : ∀ s ∈ p, Ordinary s) :
  rootHops (join slash p) = some (downs p) := by
 have parts := split_join_ordinary filled ordinary
 have text : join slash p ≠ [] := by
  intro empty
  rw [empty] at parts
  have first : [] ∈ p := by
   rw [← parts]
   exact List.mem_cons_self
  exact (ordinary [] first).filled rfl
 have relative : (join slash p).head? ≠ some slash := by
  intro rooted
  obtain ⟨rest, is⟩ := List.head?_eq_some_iff.mp rooted
  rw [is, split_sep_cons] at parts
  have first : [] ∈ p := by
   rw [← parts]
   exact List.mem_cons_self
  exact (ordinary [] first).filled rfl
 unfold rootHops
 rw [if_neg (not_or.mpr ⟨text, relative⟩), parts, solid_ordinary ordinary]
 congr 1
 apply List.map_congr_left
 intro s inside
 exact if_neg (ordinary s inside).notDotDot

theorem rootHops_dot : rootHops dot = some (downs []) := rfl

theorem join_concat (filled : p ≠ []) : join slash (p ++ [x]) = join slash p ++ slash :: x := by
 induction p with
 | nil => exact absurd rfl filled
 | cons s rest ih =>
  by_cases single : rest = []
  · rw [single, List.singleton_append, join_cons s (List.cons_ne_nil x [])]
    rfl
  · rw [List.cons_append, join_cons s (by simp), join_cons s single, ih single,
     List.append_assoc, List.cons_append]

theorem dirPart_single (single : slash ∉ x) : dirPart x = [] := by
 have passes : ∀ c ∈ x.reverse, decide (c ≠ slash) = true := by
  intro c inside
  apply decide_eq_true
  rintro rfl
  exact single (List.mem_reverse.mp inside)
 rw [dirPart, List.dropWhile_eq_nil_iff.mpr passes]
 rfl

theorem dir_ordinary (ordinary : ∀ s ∈ p ++ [x], Ordinary s) :
  dir (join slash (p ++ [x])) = if p = [] then dot else join slash p := by
 have last : slash ∉ x := (ordinary x (List.mem_append_right _ List.mem_cons_self)).single
 by_cases single : p = []
 · rw [if_pos single, single]
   change dir x = dot
   rw [dir, dirPart_single last]
   rfl
 · rw [if_neg single, join_concat single]
   have front : ∀ s ∈ p, Ordinary s := fun s inside => ordinary s (List.mem_append_left _ inside)
   have parts := split_join_ordinary single front
   have hops := rootHops_ordinary single front
   have proper : ¬ (join slash p = [] ∨ (join slash p).head? = some slash) := by
    intro bad
    rw [rootHops, if_pos bad] at hops
    cases hops
   rw [not_or] at proper
   apply dir_append last proper.1 proper.2
   rw [parts, Pushed, foldl_cleanStep_tame fun s inside => .inr (.inr (front s inside)),
    solid_ordinary front, List.append_nil]

end Ordinary

section Any

variable {disk disk' : Disk} {name old new : Str} {p : List Str} {follow : Bool} {node : Object}
 {refusal : Option Refusal}

section

variable (wf : disk.WellFormed) (found : find follow disk name = .ok p)

include wf found

theorem find_placed : Placed disk p := by
 unfold find at found
 split at found
 · cases found
 · exact resolve_placed _ wf wf.root found

theorem parent_of_missing (missing : disk.names p = none) : ∃ q x, p = q ++ [x] ∧
  disk.look q = some .dir := by
 rcases find_placed wf found with atRoot | inside
 · rw [atRoot] at missing
   exact absurd missing (names_ne_none wf.root)
 · exact inside

theorem follows_create (missing : disk.names p = none) : Follows disk (disk.create p node) := by
 obtain ⟨q, x, rfl, parent⟩ := parent_of_missing wf found missing
 exact (@spares_create _ _ _ _ _ _ _ (fun _ => False) _ x wf parent missing).follows

end

theorem stat_eq_ok {i : Nat} : stat follow refusal disk name = .ok (i, node) ↔
   refusal = none ∧ ∃ p, find follow disk name = .ok p ∧ disk.names p = some i ∧
    disk.nodes i = some node := by
 unfold stat
 grind

theorem follows_eraseBelow (wf : disk.WellFormed) (p : List Str) (gone : List (Str × List Str)) :
  Spares (fun q => p <+: q ∧ p ≠ q) disk
   (gone.foldl (fun d q => d.erase (p ++ q.1 :: q.2)) disk) := by
 induction gone generalizing disk with
 | nil => exact Spares.refl wf
 | cons g gone ih =>
  have one : Spares (fun q => p <+: q ∧ p ≠ q) disk (disk.erase (p ++ g.1 :: g.2)) := by
   refine (spares_erase wf (by simp)).mono fun q _ below => ⟨?_, ?_⟩
   · exact (List.prefix_append p _).trans below
   · rintro rfl
     have longer := below.length_le
     rw [List.length_append, List.length_cons] at longer
     omega
  exact one.trans (ih one.wf)

theorem follows_removeAll (wf : disk.WellFormed)
  (answer : Option (Refusal × List (Str × List Str))) :
  Follows disk (removeAll answer disk name).1 := by
 unfold removeAll
 split
 · exact Follows.refl wf
 · exact Follows.refl wf
 · split
   · exact (follows_eraseBelow wf _ _).follows
   · split
     · exact Follows.refl wf
     · rename_i filled
       exact (spares_erase wf filled).follows

theorem removeAll_eq_none {answer : Option (Refusal × List (Str × List Str))}
  (removed : removeAll answer disk name = (disk', none)) :
  (find false disk name = .error .notExist ∧ disk' = disk) ∨
   ∃ p, find false disk name = .ok p ∧ p ≠ [] ∧ disk' = disk.erase p := by
 unfold removeAll at removed
 grind

theorem extends_mkdirAll (wf : disk.WellFormed) (limit : Limit Refusal) :
  Extends disk (Root.mkdirAll limit disk name).1 ∧
  (Root.mkdirAll limit disk name).1.WellFormed := by
 unfold Root.mkdirAll
 split
 · exact ⟨Extends.refl disk, wf⟩
 · exact grows_mkdirAll _ disk limit [] _ wf wf.root

theorem openWrite_cases {file : Option Nat}
  (answer : openWrite refusal disk name = .ok (disk', file)) :
  (∃ p, find true disk name = .ok p ∧ disk.names p = none ∧ disk' = disk.create p (.file []) ∧
    file = some disk.next) ∨
   (∃ i content, disk.nodes i = some (.file content) ∧ disk' = disk.rewrite i [] ∧ file = some i) ∨
   (disk' = disk ∧ file = none) := by
 unfold openWrite at answer
 grind

theorem follows_openWrite {file : Option Nat} (wf : disk.WellFormed)
  (answer : openWrite refusal disk name = .ok (disk', file)) (content : Bytes) :
  Follows disk disk' ∧ Follows disk (writeTo disk' content file) := by
 rcases openWrite_cases answer with
  ⟨p, found, missing, rfl, rfl⟩ | ⟨i, old, is, rfl, rfl⟩ | ⟨rfl, rfl⟩
 · have made : Follows disk (disk.create p (.file [])) := follows_create wf found missing
   refine ⟨made, made.trans (@follows_rewrite _ _ _ _ _ _ [] _ made.wf ?_)⟩
   simp [NameTree.create]
 · have opened : Follows disk (disk.rewrite i []) := follows_rewrite wf is
   refine ⟨opened, opened.trans (@follows_rewrite _ _ _ _ _ _ [] _ opened.wf ?_)⟩
   simp [NameTree.rewrite]
 · exact ⟨Follows.refl wf, Follows.refl wf⟩

theorem make_eq_ok (answer : make refusal disk name node = .ok disk') :
  ∃ p, find false disk name = .ok p ∧ disk.names p = none ∧ disk' = disk.create p node := by
 unfold make at answer
 grind

theorem mknodAt_eq_ok {parent : List Str} {base : Str}
  (answer : mknodAt refusal disk parent base node = .ok disk') :
  disk.look parent = some .dir ∧ disk.names (parent ++ [base]) = none ∧
   disk' = disk.create (parent ++ [base]) node := by
 unfold mknodAt at answer
 grind

theorem link_eq_ok (answer : link refusal disk old new = .ok disk') :
  ∃ i object p, stat false none disk old = .ok (i, object) ∧ object ≠ .dir ∧
   find false disk new = .ok p ∧ disk.names p = none ∧ disk' = disk.attach p i := by
 unfold link at answer
 split at answer
 · cases answer
 · rename_i i object target
   split at answer
   · cases answer
   · rename_i notDir
     split at answer
     · cases answer
     · rename_i p found
       split at answer
       · rename_i missing
         rw [(stat_eq_ok.mp target).1] at target
         exact ⟨i, object, p, target, notDir, found, missing, (Except.ok.inj answer).symm⟩
       · cases answer

theorem follows_link (wf : disk.WellFormed) (answer : link refusal disk old new = .ok disk') :
  Follows disk disk' := by
 obtain ⟨i, object, p, target, -, found, missing, rfl⟩ := link_eq_ok answer
 obtain ⟨-, q, -, named, -⟩ := stat_eq_ok.mp target
 obtain ⟨r, x, rfl, parent⟩ := parent_of_missing wf found missing
 obtain ⟨known, present⟩ := wf.known q i named
 exact (@spares_attach _ _ _ _ _ _ _ (fun _ => False) _ x wf parent missing known present).follows

theorem remove_cases : (remove refusal disk name).1 = disk ∨
   ∃ p, find false disk name = .ok p ∧ p ≠ [] ∧ (remove refusal disk name).1 = disk.erase p := by
 unfold remove
 grind

theorem follows_remove (wf : disk.WellFormed) : Follows disk (remove refusal disk name).1 := by
 rcases remove_cases with same | ⟨p, -, filled, erased⟩
 · rw [same]
   exact Follows.refl wf
 · rw [erased]
   exact (spares_erase wf filled).follows

end Any

section Straight

variable {disk disk' : Disk} {name : Str} {p q : List Str} {follow : Bool} {node : Object}
 {refusal : Option Refusal} {i : Nat}

section

variable (hops : rootHops name = some (downs p)) (wf : disk.WellFormed)

include hops wf

theorem find_straight (straight : Straight disk p)
  (last : follow = true → ∀ text, disk.look p ≠ some (.link text)) :
  (∀ q, find follow disk name = .ok q → q = p) ∧
   (find follow disk name = .error .notExist → disk.names p = none) := by
 unfold find
 rw [hops]
 exact resolve_straight rootMaxSymlinks wf straight last

theorem find_unfollowed (straight : Straight disk p) : (∀ q, find false disk name = .ok q → q = p) ∧
   (find false disk name = .error .notExist → disk.names p = none) :=
 find_straight hops wf straight fun impossible => by cases impossible

theorem stat_named
  (named : disk.names p = some i) (is : disk.nodes i = some node)
  (last : follow = true → node.isLink = false) :
  stat follow none disk name = .ok (i, node) := by
 refine stat_eq_ok.mpr ⟨rfl, p, ?_, named, is⟩
 unfold find
 rw [hops]
 apply resolve_named rootMaxSymlinks wf (by rw [named]; simp)
 intro follows text linked
 rw [look_of_names named, is] at linked
 cases linked
 cases last follows

theorem stat_straight (straight : Straight disk p)
  (last : follow = true → ∀ text, disk.look p ≠ some (.link text))
  (answer : stat follow refusal disk name = .ok (i, node)) : disk.names p = some i ∧
  disk.nodes i = some node := by
 obtain ⟨-, q, found, named, is⟩ := stat_eq_ok.mp answer
 rw [(find_straight hops wf straight last).1 q found] at named
 exact ⟨named, is⟩

theorem stat_missing (straight : Straight disk p)
  (answer : stat false refusal disk name = .error .notExist) :
  disk.names p = none := by
 have search := find_unfollowed hops wf straight
 unfold stat at answer
 split at answer
 · cases answer
 · split at answer
   · rename_i found
     cases answer
     exact search.2 found
   · rename_i r found
     rw [← search.1 r found]
     split at answer
     · assumption
     · rename_i j named
       split at answer
       · rename_i absent
         exact absurd absent (wf.known r j named).2
       · cases answer

theorem removeAll_straight (straight : Straight disk p)
  (answer : Option (Refusal × List (Str × List Str))) :
  (∃ d e, removeAll answer disk name = (d, some e) ∧ Spares (fun q => p <+: q ∧ p ≠ q) disk d) ∨
   (removeAll answer disk name = (disk, none) ∧ disk.names p = none) ∨
   (removeAll answer disk name = (disk.erase p, none) ∧ p ≠ []) := by
 have search := find_unfollowed hops wf straight
 unfold removeAll
 split
 · rename_i found
   exact .inr (.inl ⟨rfl, search.2 found⟩)
 · exact .inl ⟨disk, _, rfl, Spares.refl wf⟩
 · rename_i r found
   rw [search.1 r found]
   split
   · exact .inl ⟨_, _, rfl, follows_eraseBelow wf p _⟩
   · split
     · exact .inl ⟨disk, _, rfl, Spares.refl wf⟩
     · rename_i filled
       exact .inr (.inr ⟨rfl, filled⟩)

theorem mkdirAll_along
  (straight : Straight disk p) (last : ∀ text, disk.look p ≠ some (.link text))
  (limit : Limit Refusal) :
  (∀ q, (Root.mkdirAll limit disk name).1.names q ≠ disk.names q → q <+: p) ∧
   ((Root.mkdirAll limit disk name).2 = none →
    (Root.mkdirAll limit disk name).1.look p = some .dir) := by
 unfold Root.mkdirAll
 rw [hops]
 exact mkdirAll_straight rootMaxSymlinks limit wf straight last

end

theorem remove_straight (hops : rootHops name = some (downs p)) (wf : disk.WellFormed)
  (straight : Straight disk p) :
  (remove refusal disk name).1 = disk ∨ (p ≠ [] ∧ (remove refusal disk name).1 = disk.erase p) := by
 rcases remove_cases with same | ⟨q, found, filled, erased⟩
 · exact .inl same
 · have here : q = p := (find_unfollowed hops wf straight).1 q found
   rw [here] at filled erased
   exact .inr ⟨filled, erased⟩

theorem openDir_straight (hops : rootHops name = some (downs p)) (wf : disk.WellFormed)
  (dir : disk.look p = some .dir) (answer : openDir refusal disk name = .ok q) : q = p := by
 have search := find_straight hops wf (straight_of_named wf (names_ne_none dir))
  (fun (_ : true = true) text linked => by rw [dir] at linked; cases linked)
 unfold openDir at answer
 split at answer
 · cases answer
 · split at answer
   · cases answer
   · rename_i r found
     split at answer
     · cases answer
     · rw [← Except.ok.inj answer]
       exact search.1 r found

end Straight

end BackImage.Go.Root
