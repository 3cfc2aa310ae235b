/- source: pkg/archive/extract_unix.go
  digest: What an entry does when no link stands on the way to its name. -/

import BackImage.Archive.CreateSteps

namespace BackImage.Archive.Overlay

open Create CreateSteps Go Go.Path Go.Root Go.Text Lib.Filesystem Lib.Sequence

/-- A name leads down to one place, and its parts to the directory above it. -/
structure Addressed (name : Str) (front : List Str) (last : Str) : Prop where
 path : pathOf name = front ++ [last]
 hops : rootHops name = some (downs (front ++ [last]))
 dirHops : rootHops (dir name) = some (downs front)
 parentHops : rootHops (parentName name) = some (downs front)
 base : baseName name = last
 top : dir name = dot → front = []

theorem parts_ordinary {front : List Str} {last : Str}
  (ordinary : ∀ x ∈ front ++ [last], Ordinary x) :
  parentName (join slash (front ++ [last])) = (if front = [] then dot else join slash front) ∧
   baseName (join slash (front ++ [last])) = last := by
 have single : slash ∉ last := (ordinary last (List.mem_append_right _ List.mem_cons_self)).single
 by_cases atTop : front = []
 · have plain : join slash (front ++ [last]) = last := by
    rw [atTop]
    rfl
   rw [if_pos atTop, parentName, baseName, plain, dirPart_single single]
   exact ⟨rfl, rfl⟩
 · rw [join_concat atTop]
   have directory : dirPart (join slash front ++ slash :: last) = join slash front ++ [slash] :=
    dirPart_append single
   have some_text : join slash front ≠ [] := by
    intro empty
    have back := rootHops_ordinary atTop fun x inside => ordinary x (List.mem_append_left _ inside)
    rw [empty] at back
    cases back
   have trimmed : trimSuffix (join slash front ++ [slash]) [slash] = join slash front := by
    simp [trimSuffix, hasSuffix]
   refine ⟨?_, ?_⟩
   · rw [if_neg atTop, parentName, directory, trimmed]
     exact if_neg some_text
   · rw [baseName, directory]
     simp

theorem addressed {name : Str} (ordinary : ∀ x ∈ pathOf name, Ordinary x) :
  ∃ front last, Addressed name front last := by
 have filled : pathOf name ≠ [] := split_ne_nil name
 obtain ⟨front, last, path⟩ : ∃ front last, pathOf name = front ++ [last] :=
  ⟨_, _, (List.dropLast_append_getLast filled).symm⟩
 rw [path] at ordinary
 have text : name = join slash (front ++ [last]) := by
  rw [← path]
  exact (join_split name).symm
 have above : ∀ x ∈ front, Ordinary x := fun x inside => ordinary x (List.mem_append_left _ inside)
 have dirText : dir name = if front = [] then dot else join slash front := by
  rw [text]
  exact dir_ordinary ordinary
 have parts := parts_ordinary ordinary
 rw [← text] at parts
 have aboveHops : rootHops (if front = [] then dot else join slash front) = some (downs front) := by
  by_cases atTop : front = []
  · rw [if_pos atTop, atTop]
    exact rootHops_dot
  · rw [if_neg atTop]
    exact rootHops_ordinary atTop above
 refine ⟨front, last, path, ?_, ?_, ?_, parts.2, ?_⟩
 · rw [text]
   exact rootHops_ordinary (by simp) ordinary
 · rw [dirText]
   exact aboveHops
 · rw [parts.1]
   exact aboveHops
 · intro isDot
   rw [← dirText, isDot, rootHops_dot] at aboveHops
   exact (downs_eq_nil.mp (Option.some.inj aboveHops).symm)

section Entry

variable {opts : Options} {calls : Calls} {hdr : Tar.Header} {body : Bytes} {run : Run}
 {front : List Str} {last : Str}

def Lost (opts : Options) (hdr : Tar.Header) (disk : Disk) (q : List Str) : Prop :=
 opts.base.overwrite = true ∧ pathOf hdr.name <+: q ∧
  ¬ (hdr.typeflag = .dir ∧ disk.look (pathOf hdr.name) = some .dir)

/-- The ways to end for the first part of `createOne`. -/
inductive Cleared (opts : Options) (hdr : Tar.Header) (run : Run) : Effect Run CreateError → Prop
 | refused {disk : Disk} {err : CreateError}
   (spares : Spares (fun q => Lost opts hdr run.disk q ∧ pathOf hdr.name ≠ q) run.disk disk) :
   Cleared opts hdr run (stop (run.on disk) err)
 | free (missing : run.disk.names (pathOf hdr.name) = none) : Cleared opts hdr run (done run)
 | kept (type : hdr.typeflag = .dir) (there : run.disk.look (pathOf hdr.name) = some .dir) :
   Cleared opts hdr run (done run)
 | removed (lost : Lost opts hdr run.disk (pathOf hdr.name)) (filled : pathOf hdr.name ≠ []) :
   Cleared opts hdr run (done ((run.on (run.disk.erase (pathOf hdr.name))).forget hdr.name))

theorem cleared (address : Addressed hdr.name front last) (wf : run.disk.WellFormed)
  (straight : Straight run.disk (pathOf hdr.name)) :
  Cleared opts hdr run (clearName opts calls hdr run) := by
 have hops : rootHops hdr.name = some (downs (pathOf hdr.name)) := by
  rw [address.path]
  exact address.hops
 unfold clearName
 split
 · rename_i i existing found
   obtain ⟨named, is⟩ :=
    stat_straight hops wf straight (fun impossible => by cases impossible) found
   split
   · exact .refused (Spares.refl wf)
   · rename_i allowed
     split
     · rename_i same
       refine .kept same.2 ?_
       rw [look_of_names named, is, same.1]
     · rename_i differs
       have lost : ∀ q, pathOf hdr.name <+: q → Lost opts hdr run.disk q := by
        intro q below
        refine ⟨Bool.not_eq_false _ ▸ allowed, below, ?_⟩
        rintro ⟨type, there⟩
        rw [look_of_names named, is] at there
        exact differs ⟨Option.some.inj there, type⟩
       rcases removeAll_straight hops wf straight calls.removeAll with
        ⟨disk, e, answer, spares⟩ | ⟨-, missing⟩ | ⟨answer, filled⟩
       · rw [answer]
         exact .refused (spares.mono fun q _ below => ⟨lost q below.1, below.2⟩)
       · rw [missing] at named
         cases named
       · rw [answer]
         exact .removed (lost _ (List.prefix_refl _)) filled
 · rename_i missing
   exact .free (stat_missing hops wf straight missing)
 · exact .refused (Spares.refl wf)

/-- The tree after the directories above have been made: nothing that was there changes, and nothing
appears at or below the name. -/
structure Roofed (disk disk' : Disk) (front : List Str) : Prop where
 grown : Extends disk disk'
 wf : disk'.WellFormed
 along : ∀ q, disk'.names q ≠ disk.names q → q <+: front

theorem roofed (address : Addressed hdr.name front last) (wf : run.disk.WellFormed)
  (straight : Straight run.disk (pathOf hdr.name)) :
  ∃ disk, (makeParents calls hdr run).state = run.on disk ∧ Roofed run.disk disk front ∧
   ((makeParents calls hdr run).error = none → disk.look front = some .dir) := by
 have proper : front ≠ pathOf hdr.name := by
  rw [address.path]
  simp
 have above : front <+: pathOf hdr.name := by
  rw [address.path]
  exact List.prefix_append _ _
 have noLink : ∀ text, run.disk.look front ≠ some (.link text) := straight front above proper
 have frontStraight : Straight run.disk front := by
  intro q higher _
  refine straight q (higher.trans above) ?_
  rintro rfl
  exact proper (higher.eq_of_length_le above.length_le).symm
 have made := mkdirAll_along address.dirHops wf frontStraight noLink calls.mkdirParent
 obtain ⟨grown, fine⟩ := @extends_mkdirAll run.disk (dir hdr.name) wf calls.mkdirParent
 unfold makeParents
 split
 · rename_i isTop
   refine ⟨run.disk, rfl, ⟨Extends.refl _, wf, fun q changed => absurd rfl changed⟩, fun _ => ?_⟩
   rw [address.top isTop]
   exact wf.root
 · split
   · rename_i answer
     rw [answer] at made grown fine
     exact ⟨_, rfl, ⟨grown, fine, made.1⟩, fun well => by cases well⟩
   · rename_i answer
     rw [answer] at made grown fine
     exact ⟨_, rfl, ⟨grown, fine, made.1⟩, fun _ => made.2 rfl⟩

structure Ready (hdr : Tar.Header) (disk : Disk) (front : List Str) (last : Str) : Prop where
 wf : disk.WellFormed
 parent : disk.look front = some .dir
 place : disk.names (front ++ [last]) = none ∨
  (hdr.typeflag = .dir ∧ disk.look (front ++ [last]) = some .dir)

/-- The ways to end for the switch of `createOne`. Nothing that was there is lost. -/
inductive Outcome (hdr : Tar.Header) (run : Run) : Effect Run CreateError → Prop
 | failed {disk : Disk} {err : CreateError} (spares : Spares (fun _ => False) run.disk disk) :
   Outcome hdr run (stop (run.on disk) err)
 | directory {disk : Disk} {i : Nat} (type : hdr.typeflag = .dir)
   (spares : Spares (fun _ => False) run.disk disk)
   (named : disk.names (pathOf hdr.name) = some i) (is : disk.nodes i = some .dir) :
   Outcome hdr run (done ((run.on disk).note (.directory (some (i, .dir)))))
 | object {disk : Disk} {i : Nat} {node : Object} (type : hdr.typeflag ≠ .dir)
   (spares : Spares (fun _ => False) run.disk disk)
   (named : disk.names (pathOf hdr.name) = some i) (is : disk.nodes i = some node)
   (new : run.disk.next ≤ i) (link : hdr.typeflag ≠ .symlink → node.isLink = false) :
   Outcome hdr run (done (run.on disk))
 | file {disk : Disk} {i : Nat} {content : Bytes}
   (type : hdr.typeflag = .reg ∨ hdr.typeflag = .link)
   (spares : Spares (fun _ => False) run.disk disk)
   (named : disk.names (pathOf hdr.name) = some i) (is : disk.nodes i = some (.file content))
   (new : run.disk.next ≤ i) :
   Outcome hdr run (done ((run.on disk).materialise hdr.name))
 | linked {disk : Disk} {i : Nat} {node : Object} (type : hdr.typeflag = .link)
   (spares : Spares (fun _ => False) run.disk disk)
   (named : disk.names (pathOf hdr.name) = some i) (is : disk.nodes i = some node)
   (target : hdr.linkname ∈ run.materialised)
   (source : stat false none run.disk hdr.linkname = .ok (i, node)) :
   Outcome hdr run (done ((run.on disk).materialise hdr.name))

section Object

variable (address : Addressed hdr.name front last) (ready : Ready hdr run.disk front last)

include address ready

omit address in
theorem spares_new {node : Object} (missing : run.disk.names (front ++ [last]) = none) :
  Spares (fun _ => False) run.disk (run.disk.create (front ++ [last]) node) :=
 spares_create ready.wf ready.parent missing

theorem find_here {p : List Str} {follow : Bool} (missing : run.disk.names (front ++ [last]) = none)
  (found : find follow run.disk hdr.name = .ok p) : p = front ++ [last] := by
 refine (find_straight address.hops ready.wf (straight_of_parent ready.wf ready.parent) ?_).1 p
  found
 intro _ text linked
 exact names_ne_none linked missing

omit address in
theorem missing_of_type (type : hdr.typeflag ≠ .dir) : run.disk.names (front ++ [last]) = none :=
 ready.place.resolve_right fun same => type same.1

theorem outcome_placeDir (type : hdr.typeflag = .dir) :
  Outcome hdr run (placeDir calls hdr run) := by
 have noLink : ∀ text, run.disk.look (front ++ [last]) ≠ some (.link text) := by
  intro text linked
  rcases ready.place with missing | ⟨-, there⟩
  · exact names_ne_none linked missing
  · rw [there] at linked
    cases linked
 have made := mkdirAll_along address.hops ready.wf (straight_of_parent ready.wf ready.parent) noLink
  calls.mkdir
 obtain ⟨grown, fine⟩ := @extends_mkdirAll run.disk hdr.name ready.wf calls.mkdir
 unfold placeDir
 split
 · rename_i answer
   rw [answer] at grown fine
   exact .failed (grown.spares fine)
 · rename_i disk answer
   rw [answer] at made grown fine
   obtain ⟨i, named, is⟩ := look_eq_some.mp (made.2 rfl)
   have found : stat false none disk hdr.name = .ok (i, .dir) :=
    stat_named address.hops fine named is fun impossible => by cases impossible
   rw [found]
   refine .directory type (grown.spares fine) ?_ is
   rw [address.path]
   exact named

theorem written {disk : Disk} {file : Option Nat} {refusal : Option Refusal}
  (missing : run.disk.names (front ++ [last]) = none)
  (opened : openWrite refusal run.disk hdr.name = .ok (disk, file)) (content : Bytes) :
  disk = run.disk.create (front ++ [last]) (.file []) ∧
   Spares (fun _ => False) run.disk (writeTo disk content file) ∧
   (writeTo disk content file).names (front ++ [last]) = some run.disk.next ∧
   (writeTo disk content file).nodes run.disk.next = some (.file content) := by
 obtain ⟨rfl, rfl⟩ : disk = run.disk.create (front ++ [last]) (.file []) ∧
   file = some run.disk.next := by
  unfold openWrite at opened
  split at opened
  · cases opened
  · split at opened
    · cases opened
    · rename_i p found
      rw [find_here address ready missing found, missing] at opened
      cases opened
      exact ⟨rfl, rfl⟩
 have made : Spares (fun _ => False) run.disk (run.disk.create (front ++ [last]) (.file [])) :=
  spares_new ready missing
 have fresh : (run.disk.create (front ++ [last]) (.file [])).nodes run.disk.next =
   some (.file []) := by simp [NameTree.create]
 refine ⟨rfl, spares_rewrite made.wf fresh made (Nat.le_refl _), ?_, ?_⟩
 · simp [writeTo, NameTree.rewrite, NameTree.create]
 · simp [writeTo, NameTree.rewrite]

theorem outcome_placeFile (type : hdr.typeflag = .reg) :
  Outcome hdr run (placeFile calls hdr body run) := by
 have missing := missing_of_type ready (by rw [type]; simp)
 unfold placeFile
 split
 · exact .failed (Spares.refl ready.wf)
 · rename_i disk file opened
   split
   · exact .failed (written address ready missing opened _).2.1
   · obtain ⟨-, spares, named, is⟩ := written address ready missing opened body
     dsimp only
     split
     · exact .failed spares
     · refine .file (.inl type) spares ?_ is (Nat.le_refl _)
       rw [address.path]
       exact named

theorem outcome_create {node : Object} (type : hdr.typeflag ≠ .dir)
  (missing : run.disk.names (front ++ [last]) = none)
  (link : hdr.typeflag ≠ .symlink → node.isLink = false) :
  Outcome hdr run (done (run.on (run.disk.create (front ++ [last]) node))) := by
 have at_name : (run.disk.create (front ++ [last]) node).names (pathOf hdr.name) =
   some run.disk.next := by simp [NameTree.create, address.path]
 exact .object type (spares_new ready missing) at_name (by simp [NameTree.create])
  (Nat.le_refl _) link

theorem outcome_placeSymlink (type : hdr.typeflag = .symlink) :
  Outcome hdr run (placeSymlink calls hdr run) := by
 have missing := missing_of_type ready (by rw [type]; simp)
 unfold placeSymlink
 split
 · exact .failed (Spares.refl ready.wf)
 · rename_i answer
   obtain ⟨p, found, -, rfl⟩ := make_eq_ok answer
   rw [find_here address ready missing found]
   exact outcome_create address ready (by rw [type]; simp) missing fun other => absurd type other

theorem outcome_placeNode {special : Special} (type : hdr.typeflag ≠ .dir) :
  Outcome hdr run (placeNode calls hdr front special run) := by
 unfold placeNode
 split
 · exact .failed (Spares.refl ready.wf)
 · rename_i answer
   obtain ⟨-, missing, rfl⟩ := mknodAt_eq_ok answer
   rw [address.base] at missing ⊢
   exact outcome_create address ready type missing fun _ => rfl

theorem copied (missing : run.disk.names (front ++ [last]) = none) :
  Spares (fun _ => False) run.disk (copyFileIn calls hdr run.disk).1 ∧
   ((copyFileIn calls hdr run.disk).2 = none → ∃ i content,
    (copyFileIn calls hdr run.disk).1.names (front ++ [last]) = some i ∧
    (copyFileIn calls hdr run.disk).1.nodes i = some (.file content) ∧ run.disk.next ≤ i) := by
 -- a copy that failed goes again, and with it only a name that was free
 have dropped : ∀ (disk : Disk) (e : OsErr), Spares (fun _ => False) run.disk disk →
   disk.look front = some .dir →
    Spares (fun _ => False) run.disk (dropCopy calls hdr disk e).1 := by
  intro disk e made dir
  have straight : Straight disk (front ++ [last]) := straight_of_parent made.wf dir
  rcases @remove_straight disk hdr.name _ calls.copyRemove address.hops made.wf straight with
   same | ⟨filled, erased⟩
  · rw [dropCopy, same]
    exact made
  · rw [dropCopy, erased]
    have lost := spares_erase made.wf filled
    have all : Spares (front ++ [last] <+: ·) run.disk (disk.erase (front ++ [last])) :=
     (made.mono fun _ _ never => never.elim).trans lost
    refine all.mono fun q named below => ?_
    by_cases here : front ++ [last] = q
    · rw [here] at missing
      exact named missing
    · exact names_ne_none (dir_of_proper ready.wf below here named) missing
 unfold copyFileIn
 split
 · exact ⟨Spares.refl ready.wf, fun well => by cases well⟩
 · split
   · exact ⟨Spares.refl ready.wf, fun well => by cases well⟩
   · rename_i disk file opened
     have parentStays : ∀ content, (writeTo disk content file).look front = some .dir :=
      fun content =>
      (written address ready missing opened content).2.1.look ready.wf not_false ready.parent
     split
     · have made : Spares (fun _ => False) run.disk disk := by
        rw [(written address ready missing opened []).1]
        exact spares_new ready missing
       exact ⟨dropped disk _ made (made.look ready.wf not_false ready.parent),
        fun well => by cases well⟩
     · rename_i content _
       split
       · exact ⟨dropped _ _ (written address ready missing opened _).2.1 (parentStays _),
          fun well => by cases well⟩
       · obtain ⟨-, spares, named, is⟩ := written address ready missing opened content
         exact ⟨spares, fun _ => ⟨_, content, named, is, Nat.le_refl _⟩⟩

end Object

inductive Noted (hdr : Tar.Header) (run : Run) : Run → Prop
 | nothing : Noted hdr run run
 | linking (target : hdr.linkname ∈ run.materialised) :
   Noted hdr run (run.note (.linking (reached (stat false none run.disk hdr.linkname))))
 | copying (target : hdr.linkname ∈ run.materialised) :
   Noted hdr run ((run.note (.linking (reached (stat false none run.disk hdr.linkname)))).note
    (.copying (reached (stat true none run.disk hdr.linkname))))

theorem outcome_placeLink (address : Addressed hdr.name front last)
  (ready : Ready hdr run.disk front last) (type : hdr.typeflag = .link) :
  ∃ noted, Noted hdr run noted ∧ Outcome hdr noted (placeLink opts calls hdr run) := by
 have missing := missing_of_type ready (by rw [type]; simp)
 unfold placeLink
 split
 · exact ⟨run, .nothing, .failed (Spares.refl ready.wf)⟩
 · rename_i listed
   have target : hdr.linkname ∈ run.materialised := not_not.mp listed
   dsimp only
   split
   · rename_i answer
     obtain ⟨i, node, p, source, -, found, -, rfl⟩ := link_eq_ok answer
     obtain ⟨-, q, -, named, is⟩ := stat_eq_ok.mp source
     obtain ⟨known, present⟩ := ready.wf.known q i named
     rw [find_here address ready missing found]
     refine ⟨_, .linking target, .linked type ?_ ?_ is target source⟩
     · exact spares_attach ready.wf ready.parent missing known present
     · rw [address.path, names_attach, if_pos rfl]
   · split
     · exact ⟨_, .linking target, .failed (Spares.refl ready.wf)⟩
     · obtain ⟨spares, success⟩ := @copied calls hdr run front last address ready missing
       refine ⟨_, .copying target, ?_⟩
       split
       · rename_i answer
         dsimp only [Run.note] at answer
         rw [answer] at spares
         exact .failed spares
       · rename_i answer
         dsimp only [Run.note] at answer
         rw [answer] at spares success
         obtain ⟨i, content, named, is, new⟩ := success rfl
         split
         · exact .failed spares
         · refine .file (.inr type) spares ?_ is new
           rw [address.path]
           exact named

theorem outcome_place (address : Addressed hdr.name front last)
  (ready : Ready hdr run.disk front last) :
  ∃ noted, Noted hdr run noted ∧ Outcome hdr noted (place opts calls hdr body front run) := by
 unfold place
 split
 · rename_i type
   exact ⟨run, .nothing, outcome_placeDir address ready type⟩
 · rename_i type
   exact ⟨run, .nothing, outcome_placeFile address ready type⟩
 · rename_i type
   exact ⟨run, .nothing, outcome_placeSymlink address ready type⟩
 · rename_i type
   exact outcome_placeLink address ready type
 · rename_i type
   exact ⟨run, .nothing, outcome_placeNode address ready (by rw [type]; simp)⟩
 · rename_i type
   exact ⟨run, .nothing, outcome_placeNode address ready (by rw [type]; simp)⟩
 · rename_i type
   exact ⟨run, .nothing, outcome_placeNode address ready (by rw [type]; simp)⟩
 · exact ⟨run, .nothing, .failed (Spares.refl ready.wf)⟩

theorem ready_of_cleared {call : Effect Run CreateError} (wf : run.disk.WellFormed)
  (straight : Straight run.disk (pathOf hdr.name)) (ended : Cleared opts hdr run call)
  (well : call.error = none) :
  call.state.disk.WellFormed ∧ Straight call.state.disk (pathOf hdr.name) ∧
   (call.state.disk.names (pathOf hdr.name) = none ∨
    (hdr.typeflag = .dir ∧ call.state.disk.look (pathOf hdr.name) = some .dir)) := by
 cases ended with
 | refused => cases well
 | free missing => exact ⟨wf, straight, .inl missing⟩
 | kept type there => exact ⟨wf, straight, .inr ⟨type, there⟩⟩
 | removed lost filled =>
  refine ⟨wellFormed_erase wf filled, ?_, .inl ?_⟩
  · intro q above proper text
    change (run.disk.erase (pathOf hdr.name)).look q ≠ _
    rw [look_erase]
    split
    · simp
    · exact straight q above proper text
  · change (run.disk.erase (pathOf hdr.name)).names _ = none
    rw [names_erase, if_pos (List.prefix_refl _)]

theorem ready_of_roofed {disk : Disk} (address : Addressed hdr.name front last)
  (wf : run.disk.WellFormed) (above : Roofed run.disk disk front)
  (parent : disk.look front = some .dir) (place : run.disk.names (pathOf hdr.name) = none ∨
   (hdr.typeflag = .dir ∧ run.disk.look (pathOf hdr.name) = some .dir)) :
  Ready hdr disk front last := by
 rw [address.path] at place
 refine ⟨above.wf, parent, place.imp (fun missing => ?_) fun there => ⟨there.1, ?_⟩⟩
 · rw [← missing]
   by_contra changed
   have shorter := (above.along _ changed).length_le
   rw [List.length_append, List.length_singleton] at shorter
   omega
 · have spares : Spares (fun _ => False) run.disk disk := above.grown.spares above.wf
   exact spares.look wf not_false there.2

/-- What the parts of `createOne` keep, and what they have done when all goes well. `own` are the
inodes whose metadata may change once the object is there. -/
structure Phases (opts : Options) (hdr : Tar.Header) (front : List Str) (last : Str) (entered : Run)
  (P Q : Run → Prop) (own : Run → Nat → Prop) : Prop where
 cleared : ∀ call, Cleared opts hdr entered call → P call.state
 roofed : ∀ s disk, P s → Roofed s.disk disk front → P (s.on disk)
 placed : ∀ s noted call, P s → Ready hdr s.disk front last → Noted hdr s noted →
  Outcome hdr noted call → P call.state ∧
   (call.error = none → Q call.state ∧ Leads (own call.state) hdr front call.state.disk)
 marked : ∀ s s', Marks (own s) s s' → (P s → P s') ∧ (Q s → Q s')

theorem createOne_keeps {P Q : Run → Prop} {own : Run → Nat → Prop}
  (address : Addressed hdr.name front last) (wf : run.disk.WellFormed)
  (straight : Straight run.disk (pathOf hdr.name))
  (phases : Phases opts hdr front last (run.enter hdr) P Q own) :
  P (createOne opts calls hdr body run).state ∧
   ((createOne opts calls hdr body run).error = none →
    Q (createOne opts calls hdr body run).state) := by
 unfold createOne
 have first : Cleared opts hdr (run.enter hdr)
   (clearName opts calls hdr (run.enter hdr)) :=
  cleared address wf straight
 have kept := phases.cleared _ first
 apply andThen_ends kept
 intro well
 obtain ⟨wf', straight', place'⟩ :=
  @ready_of_cleared opts hdr (run.enter hdr) _ wf straight first well
 generalize (clearName opts calls hdr (run.enter hdr)).state = s
  at kept wf' straight' place'
 obtain ⟨disk, state, above, parent⟩ := @roofed calls hdr s front last address wf' straight'
 have kept' : P (makeParents calls hdr s).state := by
  rw [state]
  exact phases.roofed s disk kept above
 apply andThen_ends kept'
 intro well'
 rw [state] at kept' ⊢
 have ready : Ready hdr disk front last :=
  ready_of_roofed address wf' above (parent well') place'
 unfold createIn
 split
 · exact ⟨kept', fun impossible => by cases impossible⟩
 · rename_i opened answer
   have here : opened = front := openDir_straight address.parentHops above.wf ready.parent answer
   rw [here]
   obtain ⟨noted, notes, outcome⟩ :=
    @outcome_place opts calls hdr body (s.on disk) front last address ready
   obtain ⟨placed, success⟩ := phases.placed (s.on disk) noted _ kept' ready notes outcome
   apply andThen_ends placed
   intro well''
   obtain ⟨reached, leads⟩ := success well''
   have marks := phases.marked _ _ (@marks_applyMetadata opts calls hdr front _ _ leads)
   exact ⟨marks.1 placed, fun _ => marks.2 reached⟩

structure Grown (run run' : Run) : Prop where
 disk : run'.disk = run.disk
 materialised : run'.materialised = run.materialised
 dirFixes : run'.dirFixes = run.dirFixes
 log : run.log <+: run'.log

theorem Noted.grown {noted : Run} (notes : Noted hdr run noted) : Grown run noted := by
 cases notes with
 | nothing => exact ⟨rfl, rfl, rfl, List.prefix_refl _⟩
 | linking => exact ⟨rfl, rfl, rfl, List.prefix_append _ _⟩
 | copying =>
  refine ⟨rfl, rfl, rfl, ?_⟩
  exact (List.prefix_append run.log _).trans (List.prefix_append _ _)

theorem Outcome.spares {call : Effect Run CreateError} (outcome : Outcome hdr run call) :
  Spares (fun _ => False) run.disk call.state.disk := by
 cases outcome with
 | failed spares => exact spares
 | directory _ spares => exact spares
 | object _ spares => exact spares
 | file _ spares => exact spares
 | linked _ spares => exact spares

theorem Outcome.log {call : Effect Run CreateError} (outcome : Outcome hdr run call) :
  run.log <+: call.state.log := by
 cases outcome with
 | failed => exact List.prefix_refl _
 | directory => exact List.prefix_append _ _
 | object => exact List.prefix_refl _
 | file => exact List.prefix_refl _
 | linked => exact List.prefix_refl _

theorem Outcome.dirFixes {call : Effect Run CreateError} (outcome : Outcome hdr run call) :
  call.state.dirFixes = run.dirFixes := by
 cases outcome with
 | failed => rfl
 | directory => rfl
 | object => rfl
 | file => rfl
 | linked => rfl

theorem Cleared.spares {call : Effect Run CreateError} (wf : run.disk.WellFormed)
  (ended : Cleared opts hdr run call) :
  Spares (Lost opts hdr run.disk) run.disk call.state.disk ∧ call.state.log = run.log ∧
   call.state.dirFixes = run.dirFixes := by
 cases ended with
 | refused spares => exact ⟨spares.mono fun _ _ lost => lost.1, rfl, rfl⟩
 | free => exact ⟨Spares.refl wf, rfl, rfl⟩
 | kept => exact ⟨Spares.refl wf, rfl, rfl⟩
 | removed lost filled =>
  refine ⟨(spares_erase wf filled).mono fun q _ below => ⟨lost.1, below, lost.2.2⟩, rfl, rfl⟩

end Entry

end BackImage.Archive.Overlay
