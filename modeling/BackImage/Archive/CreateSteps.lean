/- source: pkg/archive/extract_unix.go
  digest: Every step of an extraction leaves a well-formed tree, and metadata leaves the tree as it
    is. -/

import BackImage.Archive.Create
import BackImage.Go.Root

namespace BackImage.Archive.CreateSteps

open Create Go Go.Root Go.Text Lib.Filesystem Lib.Sequence

variable {opts : Options} {calls : Calls} {hdr : Tar.Header} {body : Bytes} {parent : List Str}
 {run run' run'' : Run}

/-- Nothing but metadata changes, and only that of inodes with a property. -/
structure Marks (own : Nat → Prop) (run run' : Run) : Prop where
 disk : run'.disk = run.disk
 materialised : run'.materialised = run.materialised
 dirFixes : run'.dirFixes = run.dirFixes
 errors : run'.errors = run.errors
 log : ∃ marks, run'.log = run.log ++ marks ∧ ∀ event ∈ marks, ∃ what i,
  event = .changed what i ∧ own i

section Metadata

variable {own : Nat → Prop}

theorem Marks.refl (run : Run) : Marks own run run :=
 ⟨rfl, rfl, rfl, rfl, [], (List.append_nil _).symm, fun _ nothing =>
  absurd nothing List.not_mem_nil⟩

theorem Marks.trans (first : Marks own run run') (second : Marks own run' run'') :
  Marks own run run'' := by
 obtain ⟨disk, materialised, dirFixes, errors, marks, log, owned⟩ := first
 obtain ⟨disk', materialised', dirFixes', errors', marks', log', owned'⟩ := second
 refine ⟨disk'.trans disk, materialised'.trans materialised, dirFixes'.trans dirFixes,
  errors'.trans errors, marks ++ marks', ?_, ?_⟩
 · rw [log', log, List.append_assoc]
 · intro event inside
   rcases List.mem_append.mp inside with early | late
   · exact owned event early
   · exact owned' event late

theorem marks_andThen {call : Effect Run CreateError} {next : Run → Effect Run CreateError}
  (first : Marks own run call.state)
  (second : ∀ s, s.disk = run.disk → Marks own s (next s).state) :
  Marks own run (call.andThen next).state := by
 apply andThen_state first
 intro marked
 exact marked.trans (second call.state marked.disk)

theorem marks_degrade {strict : Bool} {err : CreateError} :
  Marks own run (degrade strict err run).state := by
 unfold degrade
 split
 · exact Marks.refl run
 · exact Marks.refl run

theorem marks_change {strict : Bool} {what : Change} {name : Str} {set : Attrs → Attrs}
  {found : Except OsErr Nat} (owned : ∀ i, found = .ok i → own i) :
  Marks own run (change strict what name set run found).state := by
 cases found with
 | error e => exact marks_degrade
 | ok i =>
  refine ⟨rfl, rfl, rfl, rfl, [.changed what i], rfl, ?_⟩
  intro event inside
  exact ⟨what, i, List.mem_singleton.mp inside, owned i rfl⟩

/-- All that a name leads to has the property, a link in its place followed or not. -/
structure Leads (own : Nat → Prop) (hdr : Tar.Header) (parent : List Str) (disk : Disk) : Prop where
 itself : ∀ refusal i, inode (stat false refusal disk hdr.name) = .ok i → own i
 followed : hdr.typeflag ≠ .symlink → ∀ refusal i, inode (stat true refusal disk hdr.name) = .ok i →
  own i
 inParent : ∀ refusal i, statAt refusal disk parent (baseName hdr.name) = .ok i → own i

theorem marks_setXattr {i : Nat} (owned : own i) (pair : Str × Bytes) :
  Marks own run (setXattr opts calls hdr i pair run).state := by
 unfold setXattr
 split
 · apply marks_change
   rintro j ⟨⟩
   exact owned
 · split
   · exact Marks.refl run
   · exact marks_degrade

section

variable (leads : Leads own hdr parent run.disk)

include leads

theorem marks_applyXattrs : Marks own run (applyXattrs opts calls hdr run).state := by
 unfold applyXattrs
 split
 · exact Marks.refl run
 · split
   · exact Marks.refl run
   · rename_i openable
     have notLink : hdr.typeflag ≠ .symlink := by
      intro linked
      rw [linked] at openable
      exact openable (by decide)
     split
     · exact marks_degrade
     · rename_i i found
       refine runAll_keeps (Marks.refl run) ?_
       intro pair _ s marked
       exact marked.trans (marks_setXattr (leads.followed notLink _ i found) pair)

theorem marks_applyOwner : Marks own run (applyOwner opts calls hdr run).state := by
 unfold applyOwner
 split
 · exact marks_change fun i found => leads.itself _ i found
 · exact Marks.refl run

theorem marks_applyMode : Marks own run (applyMode opts calls hdr run).state := by
 unfold applyMode
 split
 · exact Marks.refl run
 · rename_i plain
   exact marks_change fun i found => leads.followed (fun linked => plain (.inl linked)) _ i found

theorem marks_applyTimes : Marks own run (applyTimes opts calls hdr parent run).state := by
 unfold applyTimes
 split
 · exact Marks.refl run
 · exact marks_change fun i found => leads.inParent _ i found

end

theorem marks_applyMetadata (leads : Leads own hdr parent run.disk) :
  Marks own run (applyMetadata opts calls hdr parent run).state := by
 have still : ∀ s : Run, s.disk = run.disk → Leads own hdr parent s.disk := by
  intro s same
  rw [same]
  exact leads
 apply marks_andThen (marks_applyOwner leads)
 intro s same
 apply marks_andThen (marks_applyMode (still s same))
 intro s' same'
 apply marks_andThen (marks_applyXattrs (still s' (same'.trans same)))
 intro s'' same''
 exact marks_applyTimes (still s'' (same''.trans (same'.trans same)))

theorem marks_fixDir {answers : Nat → FixCalls} {fix : (Str × Tar.Header) × Nat}
  (followed : ∀ refusal i, inode (stat true refusal run.disk fix.1.1) = .ok i → own i)
  (inParent : ∀ answer i, utimesIn answer run.disk fix.1.1 = .ok i → own i) :
  Marks own run (fixDir opts answers fix run).state := by
 unfold fixDir
 apply marks_andThen (marks_change (followed _))
 intro s same
 split
 · exact Marks.refl s
 · apply marks_change
   intro i found
   rw [same] at found
   exact inParent _ i found

theorem marks_finalPass {order : Order} {answers : Nat → FixCalls}
  (followed : ∀ fix ∈ run.dirFixes, ∀ refusal i,
   inode (stat true refusal run.disk fix.1) = .ok i → own i)
  (inParent : ∀ fix ∈ run.dirFixes, ∀ answer i, utimesIn answer run.disk fix.1 = .ok i → own i) :
  Marks own run (finalPass opts order answers run).state := by
 change Marks own run (runAll (fixDir opts answers) (order.sort run.dirFixes).zipIdx run).state
 refine runAll_keeps (Marks.refl run) ?_
 intro fix inside s marked
 have listed : fix.1 ∈ run.dirFixes :=
  (order.perm run.dirFixes).mem_iff.mp (List.fst_mem_of_mem_zipIdx inside)
 refine marked.trans (marks_fixDir ?_ ?_)
 · intro refusal i found
   rw [marked.disk] at found
   exact followed fix.1 listed refusal i found
 · intro answer i found
   rw [marked.disk] at found
   exact inParent fix.1 listed answer i found

end Metadata

section Turns

variable {P : Run → Prop}

theorem skip_keeps {strict fatal : Bool} {fault : Fault} (here : P run)
  (skips : ∀ s fault, P s → P { s with errors := s.errors ++ [fault] }) :
  P (skip strict fatal fault run).state := by
 unfold skip
 split
 · exact here
 · exact skips run fault here

theorem turn_keeps {item : Item} (here : P run)
  (skips : ∀ s fault, P s → P { s with errors := s.errors ++ [fault] })
  (creates : ∀ made, Extract.treat opts.base item.hdr = .create made →
   P (createOne opts item.calls made item.body run).state ∧
   ((createOne opts item.calls made item.body run).error = none →
    P (remember made (createOne opts item.calls made item.body run).state))) :
  P (turn opts item run).state := by
 unfold turn
 split
 · exact here
 · split
   · exact here
   · exact skip_keeps here skips
   · rename_i made treated
     obtain ⟨created, remembered⟩ := creates made treated
     dsimp only
     split
     · rename_i well
       exact remembered well
     · exact skip_keeps created skips

theorem remember_eq : ∃ fixes, remember hdr run = { run with dirFixes := fixes } := by
 unfold remember
 split
 · exact ⟨_, rfl⟩
 · exact ⟨run.dirFixes, rfl⟩

theorem remember_disk : (remember hdr run).disk = run.disk := by
 obtain ⟨fixes, same⟩ := @remember_eq hdr run
 rw [same]

theorem remember_materialised : (remember hdr run).materialised = run.materialised := by
 obtain ⟨fixes, same⟩ := @remember_eq hdr run
 rw [same]

theorem remember_errors : (remember hdr run).errors = run.errors := by
 obtain ⟨fixes, same⟩ := @remember_eq hdr run
 rw [same]

theorem remember_log : (remember hdr run).log = run.log := by
 obtain ⟨fixes, same⟩ := @remember_eq hdr run
 rw [same]

theorem extract_keeps {cond : Item → Run → Prop} {own : Run → Nat → Prop} {order : Order}
  {answers : Nat → FixCalls} {items : List Item} {tail : Option Fault} (start : P run)
  (along : Along (turn opts) cond items run)
  (turns : ∀ item ∈ items, ∀ s, P s → cond item s → P (turn opts item s).state)
  (marked : ∀ s s', P s → Marks (own s) s s' → P s') (leads : ∀ s, P s → ∀ fix ∈ s.dirFixes,
   (∀ refusal i, inode (stat true refusal s.disk fix.1) = .ok i → own s i) ∧
    ∀ answer i, utimesIn answer s.disk fix.1 = .ok i → own s i) :
  P (extract opts order answers items tail run).state := by
 have ran : P (runAll (turn opts) items run).state := runAll_along start along turns
 unfold extract
 apply andThen_state ran
 intro _
 cases tail with
 | some fault => exact ran
 | none =>
  refine marked _ _ ran (marks_finalPass ?_ ?_)
  · exact fun fix listed => (leads _ ran fix listed).1
  · exact fun fix listed => (leads _ ran fix listed).2

end Turns

/-- What every part of `createOne` does, whatever links stand on the way: the tree stays well
formed, and nothing is reported yet. -/
structure Advances (run run' : Run) : Prop where
 tree : Follows run.disk run'.disk
 errors : run'.errors = run.errors

theorem Advances.trans (first : Advances run run') (second : Advances run' run'') :
  Advances run run'' :=
 ⟨first.tree.trans second.tree, second.errors.trans first.errors⟩

section WellFormed

variable (wf : run.disk.WellFormed)

include wf

theorem Advances.refl : Advances run run := ⟨Follows.refl wf, rfl⟩

theorem advances_clearName : Advances run (clearName opts calls hdr run).state := by
 have removed : Follows run.disk (removeAll calls.removeAll run.disk hdr.name).1 :=
  follows_removeAll wf _
 unfold clearName
 split
 · split
   · exact Advances.refl wf
   · split
     · exact Advances.refl wf
     · split
       · rename_i answer
         rw [answer] at removed
         exact ⟨removed, rfl⟩
       · rename_i answer
         rw [answer] at removed
         exact ⟨removed, rfl⟩
 · exact Advances.refl wf
 · exact Advances.refl wf

theorem follows_mkdir (limit : Limit Refusal) (name : Str) :
  Follows run.disk (Root.mkdirAll limit run.disk name).1 := by
 have made := @extends_mkdirAll run.disk name wf limit
 exact ⟨made.2, made.1.next⟩

theorem advances_makeParents : Advances run (makeParents calls hdr run).state := by
 have made := follows_mkdir wf calls.mkdirParent (Path.dir hdr.name)
 unfold makeParents
 split
 · exact Advances.refl wf
 · split
   · rename_i answer
     rw [answer] at made
     exact ⟨made, rfl⟩
   · rename_i answer
     rw [answer] at made
     exact ⟨made, rfl⟩

theorem advances_placeDir : Advances run (placeDir calls hdr run).state := by
 have made := follows_mkdir wf calls.mkdir hdr.name
 unfold placeDir
 split
 · rename_i answer
   rw [answer] at made
   exact ⟨made, rfl⟩
 · rename_i answer
   rw [answer] at made
   exact ⟨made, rfl⟩

theorem advances_placeFile : Advances run (placeFile calls hdr body run).state := by
 unfold placeFile
 split
 · exact Advances.refl wf
 · rename_i opened
   split
   · exact ⟨(follows_openWrite wf opened _).2, rfl⟩
   · dsimp only
     split
     · exact ⟨(follows_openWrite wf opened _).2, rfl⟩
     · exact ⟨(follows_openWrite wf opened _).2, rfl⟩

theorem advances_placeSymlink : Advances run (placeSymlink calls hdr run).state := by
 unfold placeSymlink
 split
 · exact Advances.refl wf
 · rename_i answer
   obtain ⟨p, found, missing, rfl⟩ := make_eq_ok answer
   exact ⟨follows_create wf found missing, rfl⟩

theorem advances_placeNode {special : Special} :
  Advances run (placeNode calls hdr parent special run).state := by
 unfold placeNode
 split
 · exact Advances.refl wf
 · rename_i answer
   obtain ⟨dir, missing, rfl⟩ := mknodAt_eq_ok answer
   have kept : Spares (fun _ => False) run.disk
     (run.disk.create (parent ++ [baseName hdr.name]) (.device special)) :=
    spares_create wf dir missing
   exact ⟨kept.follows, rfl⟩

omit wf in
theorem follows_copyFileIn {disk : Disk} (wf : disk.WellFormed) :
  Follows disk (copyFileIn calls hdr disk).1 := by
 unfold copyFileIn
 split
 · exact Follows.refl wf
 · split
   · exact Follows.refl wf
   · rename_i created file opened
     split
     · have made := (follows_openWrite wf opened []).1
       exact made.trans (follows_remove made.wf)
     · rename_i content _
       split
       · rename_i n _ _
         have written := (follows_openWrite wf opened (content.take n)).2
         exact written.trans (follows_remove written.wf)
       · exact (follows_openWrite wf opened content).2

theorem advances_placeLink : Advances run (placeLink opts calls hdr run).state := by
 have copied : Follows run.disk (copyFileIn calls hdr run.disk).1 := follows_copyFileIn wf
 unfold placeLink
 split
 · exact Advances.refl wf
 · dsimp only [Run.note]
   split
   · rename_i linked
     exact ⟨follows_link wf linked, rfl⟩
   · split
     · exact ⟨Follows.refl wf, rfl⟩
     · split
       · rename_i answer
         rw [answer] at copied
         exact ⟨copied, rfl⟩
       · rename_i answer
         rw [answer] at copied
         split
         · exact ⟨copied, rfl⟩
         · exact ⟨copied, rfl⟩

theorem advances_place : Advances run (place opts calls hdr body parent run).state := by
 unfold place
 split
 · exact advances_placeDir wf
 · exact advances_placeFile wf
 · exact advances_placeSymlink wf
 · exact advances_placeLink wf
 · exact advances_placeNode wf
 · exact advances_placeNode wf
 · exact advances_placeNode wf
 · exact Advances.refl wf

theorem advances_applyMetadata : Advances run (applyMetadata opts calls hdr parent run).state := by
 have leads : Leads (fun _ => True) hdr parent run.disk :=
  ⟨fun _ _ _ => trivial, fun _ _ _ _ => trivial, fun _ _ _ => trivial⟩
 have marks := @marks_applyMetadata opts calls hdr parent run _ leads
 refine ⟨?_, marks.errors⟩
 rw [marks.disk]
 exact Follows.refl wf

theorem advances_createIn : Advances run (createIn opts calls hdr body run).state := by
 unfold createIn
 split
 · exact Advances.refl wf
 · apply andThen_state (P := Advances run) (advances_place wf)
   intro placed
   exact placed.trans (advances_applyMetadata placed.tree.wf)

theorem advances_createOne : Advances run (createOne opts calls hdr body run).state := by
 unfold createOne
 have entered : Advances run (run.enter hdr) :=
  ⟨Follows.refl wf, rfl⟩
 have first : Advances run
   (clearName opts calls hdr (run.enter hdr)).state :=
  entered.trans (advances_clearName entered.tree.wf)
 apply andThen_state (P := Advances run) first
 intro cleared
 apply andThen_state (P := Advances run) (cleared.trans (advances_makeParents cleared.tree.wf))
 intro made
 exact made.trans (advances_createIn made.tree.wf)

theorem follows_turn (item : Item) : Follows run.disk (turn opts item run).state.disk := by
 refine turn_keeps (P := fun s : Run => Follows run.disk s.disk) (Follows.refl wf) ?_ ?_
 · exact fun s fault reached => reached
 · intro made _
   have created := @advances_createOne opts item.calls made item.body run wf
   refine ⟨created.tree, fun _ => ?_⟩
   rw [remember_disk]
   exact created.tree

theorem follows_turns (items : List Item) :
  Follows run.disk (runAll (turn opts) items run).state.disk := by
 refine runAll_keeps (P := fun s : Run => Follows run.disk s.disk) (Follows.refl wf) ?_
 intro item _ s reached
 exact reached.trans (follows_turn reached.wf item)

end WellFormed

end BackImage.Archive.CreateSteps
