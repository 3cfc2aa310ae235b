/- source: pkg/archive/extract_unix.go
  digest: When metadata changes reach only objects that the same extraction restored. -/

import BackImage.Archive.LinkTargets

namespace BackImage.Archive.MetadataTargets

open Create CreateSteps EntryNames LinkTargets Overlay Go Go.Path Go.Root
open Go.Text Lib.Filesystem Lib.Sequence

/-- The inode was created by this extraction, or is a directory that the name of a directory entry
denoted when the entry was processed. -/
def Own (first : Nat) (log : List Event) (i : Nat) : Prop :=
 first ≤ i ∨ .directory (some (i, .dir)) ∈ log

def MarksOwn (first : Nat) (log : List Event) : Prop :=
 ∀ before what i after, log = before ++ .changed what i :: after → Own first before i

/-- The name of a directory of the final pass denotes such a directory. -/
structure OwnDir (first : Nat) (run : Run) (name : Str) : Prop where
 ordinary : ∀ x ∈ pathOf name, Ordinary x
 dir : ∃ i, run.disk.names (pathOf name) = some i ∧ run.disk.nodes i = some .dir ∧
  Own first run.log i

def recorded (run : Run) : List Str := run.materialised ++ run.dirFixes.map Prod.fst

/-- The entry takes no directory away that is recorded or holds what is. -/
def KeepsRecorded (opts : Options) (item : Item) (run : Run) : Prop :=
 KeepsNames opts (recorded run) item run

instance (opts : Options) (item : Item) (run : Run) : Decidable (KeepsRecorded opts item run) :=
 inferInstanceAs (Decidable (KeepsNames opts (recorded run) item run))

section Logs

variable {first : Nat} {log extra : List Event} {i : Nat}

theorem Own.mono {longer : List Event} (own : Own first log i) (front : log <+: longer) :
  Own first longer i :=
 own.imp_right fun logged => front.subset logged

theorem marksOwn_append (sound : MarksOwn first log)
  (added : ∀ event ∈ extra, ∀ what i, event = .changed what i → Own first log i) :
  MarksOwn first (log ++ extra) := by
 intro before what i after split
 rcases List.append_eq_append_iff.mp split with ⟨middle, whole, rest⟩ | ⟨middle, whole, rest⟩
 · -- the change comes with what was added
   have logged : .changed what i ∈ extra := by
    rw [rest]
    exact List.mem_append_right _ List.mem_cons_self
   rw [whole]
   exact (added _ logged what i rfl).mono (List.prefix_append _ _)
 · cases middle with
   | nil =>
    have logged : .changed what i ∈ extra := by
     rw [List.nil_append] at rest
     rw [← rest]
     exact List.mem_cons_self
    rw [List.append_nil] at whole
    rw [← whole]
    exact added _ logged what i rfl
   | cons event middle =>
    obtain ⟨rfl, -⟩ := List.cons.inj rest
    exact sound before what i middle whole

theorem marksOwn_note {event : Event} (sound : MarksOwn first log)
  (other : ∀ what i, event ≠ .changed what i) : MarksOwn first (log ++ [event]) := by
 apply marksOwn_append sound
 intro e inside what i is
 rw [List.mem_singleton.mp inside] at is
 exact absurd is (other what i)

end Logs

section Entry

variable {opts : Options} {calls : Calls} {hdr : Tar.Header} {body : Bytes} {run run' : Run}
 {first : Nat} {front : List Str} {last : Str} {name : Str}

theorem OwnDir.spared {lost : List Str → Prop} (own : OwnDir first run name)
  (wf : run.disk.WellFormed) (spares : Spares lost run.disk run'.disk)
  (kept : ¬ lost (pathOf name)) (longer : run.log <+: run'.log) : OwnDir first run' name := by
 obtain ⟨ordinary, i, named, is, owned⟩ := own
 refine ⟨ordinary, i, spares.names _ i named kept, ?_, owned.mono longer⟩
 rw [spares.nodes i (wf.known _ i named).1, is]

theorem OwnDir.same (own : OwnDir first run name) (disk : run'.disk = run.disk)
  (longer : run.log <+: run'.log) : OwnDir first run' name := by
 obtain ⟨ordinary, i, named, is, owned⟩ := own
 rw [← disk] at named is
 exact ⟨ordinary, i, named, is, owned.mono longer⟩

/-- What an entry keeps: the recorded names denote what the run restored, and metadata has changed
only there. -/
structure Restored (first : Nat) (run : Run) : Prop where
 held : Held first run
 dirs : ∀ fix ∈ run.dirFixes, OwnDir first run fix.1
 marks : MarksOwn first run.log

variable {call : Effect Run CreateError}

theorem restored_cleared (restored : Restored first run)
  (keeps : opts.base.overwrite = true → hdr.typeflag ≠ .dir →
   run.disk.look (pathOf hdr.name) = some .dir → ∀ m ∈ recorded run,
    ¬ pathOf hdr.name <+: pathOf m)
  (ended : Cleared opts hdr run call) : Restored first call.state := by
 have wf := restored.held.wf
 obtain ⟨spares, log, dirFixes⟩ := ended.spares wf
 refine ⟨?_, ?_, ?_⟩
 · refine held_cleared restored.held ?_ ended
   intro allowed type isDir m listed
   exact keeps allowed type isDir m (List.mem_append_left _ listed)
 · rw [dirFixes]
   intro fix listed
   have own := restored.dirs fix listed
   refine own.spared wf spares ?_ (by rw [log])
   rintro ⟨allowed, below, other⟩
   have inside : fix.1 ∈ recorded run := List.mem_append_right _ (List.mem_map_of_mem listed)
   obtain ⟨-, i, named, is, -⟩ := own
   -- the name cleared is a directory: the recorded one itself, or one above it
   have isDir : run.disk.look (pathOf hdr.name) = some .dir := by
    by_cases here : pathOf hdr.name = pathOf fix.1
    · rw [here, look_of_names named, is]
    · exact dir_of_proper wf below here (by rw [named]; simp)
   exact keeps allowed (fun type => other ⟨type, isDir⟩) isDir fix.1 inside below
 · rw [log]
   exact restored.marks

theorem restored_noted {noted : Run} (restored : Restored first run) (notes : Noted hdr run noted) :
  Restored first noted := by
 have grown := notes.grown
 refine ⟨restored.held.same grown.disk grown.materialised, ?_, ?_⟩
 · rw [grown.dirFixes]
   exact fun fix listed => (restored.dirs fix listed).same grown.disk grown.log
 · cases notes with
   | nothing => exact restored.marks
   | linking => exact marksOwn_note restored.marks (by simp)
   | copying => exact marksOwn_note (marksOwn_note restored.marks (by simp)) (by simp)

theorem restored_outcome (ordinary : ∀ x ∈ pathOf hdr.name, Ordinary x)
  (restored : Restored first run) (outcome : Outcome hdr run call) : Restored first call.state := by
 refine ⟨held_outcome ordinary restored.held outcome, ?_, ?_⟩
 · rw [outcome.dirFixes]
   intro fix listed
   exact (restored.dirs fix listed).spared restored.held.wf outcome.spares not_false outcome.log
 · cases outcome with
   | directory => exact marksOwn_note restored.marks (by simp)
   | failed => exact restored.marks
   | object => exact restored.marks
   | file => exact restored.marks
   | linked => exact restored.marks

theorem own_outcome (held : Held first run) (outcome : Outcome hdr run call)
  (well : call.error = none) :
  ∃ i node, call.state.disk.names (pathOf hdr.name) = some i ∧
   call.state.disk.nodes i = some node ∧ Own first call.state.log i ∧
   (hdr.typeflag = .dir → node = .dir) ∧ (hdr.typeflag ≠ .symlink → node.isLink = false) := by
 cases outcome with
 | failed => cases well
 | directory type spares named is =>
  refine ⟨_, .dir, named, is, .inr ?_, fun _ => rfl, fun _ => rfl⟩
  exact List.mem_append_right run.log List.mem_cons_self
 | object type spares named is new link =>
  exact ⟨_, _, named, is, .inl (Nat.le_trans held.next new), fun isDir => absurd isDir type, link⟩
 | file type spares named is new =>
  refine ⟨_, _, named, is, .inl (Nat.le_trans held.next new), fun isDir => ?_, fun _ => rfl⟩
  rw [isDir] at type
  rcases type with impossible | impossible
  · cases impossible
  · cases impossible
 | linked type spares named is target source =>
  obtain ⟨j, content, answer, new⟩ := stat_ownFile held.wf (held.files _ target) false
  rw [source] at answer
  cases answer
  refine ⟨_, _, named, is, .inl new, fun isDir => ?_, fun _ => rfl⟩
  rw [isDir] at type
  cases type

variable {i : Nat}

theorem inode_eq_ok {found : Except OsErr (Nat × Object)} (answer : inode found = .ok i) :
  ∃ node, found = .ok (i, node) := by
 cases found with
 | error e => cases answer
 | ok pair =>
  obtain ⟨j, node⟩ := pair
  cases answer
  exact ⟨node, rfl⟩

variable {disk : Disk}

theorem stat_reaches {follow : Bool} {refusal : Option Refusal} {j : Nat} {node : Object}
  (hops : rootHops name = some (downs (front ++ [last]))) (wf : disk.WellFormed)
  (named : disk.names (front ++ [last]) = some i) (is : disk.nodes i = some node)
  (atEnd : follow = true → node.isLink = false)
  (answer : inode (stat follow refusal disk name) = .ok j) : j = i := by
 obtain ⟨object, found⟩ := inode_eq_ok answer
 have here := stat_named hops wf named is atEnd
 rw [(stat_eq_ok.mp found).1, here] at found
 cases found
 rfl

theorem statAt_named {refusal : Option Refusal} {parent : List Str} {base : Str} {j : Nat}
  (named : disk.names (parent ++ [base]) = some i)
  (answer : statAt refusal disk parent base = .ok j) : j = i := by
 unfold statAt at answer
 rw [named] at answer
 split at answer
 · cases answer
 · cases answer
   rfl

theorem leads_own {node : Object} {own : Nat → Prop} (address : Addressed hdr.name front last)
  (wf : disk.WellFormed)
  (named : disk.names (pathOf hdr.name) = some i) (is : disk.nodes i = some node) (owned : own i)
  (link : hdr.typeflag ≠ .symlink → node.isLink = false) : Leads own hdr front disk := by
 rw [address.path] at named
 refine ⟨?_, ?_, ?_⟩
 · intro refusal j answer
   rw [stat_reaches address.hops wf named is (fun impossible => by cases impossible) answer]
   exact owned
 · intro type refusal j answer
   rw [stat_reaches address.hops wf named is (fun _ => link type) answer]
   exact owned
 · intro refusal j answer
   rw [address.base] at answer
   rw [statAt_named named answer]
   exact owned

theorem restored_marked (restored : Restored first run)
  (marks : Marks (Own first run.log) run run') :
  Restored first run' := by
 obtain ⟨marked, log, changed⟩ := marks.log
 refine ⟨restored.held.same marks.disk marks.materialised, ?_, ?_⟩
 · rw [marks.dirFixes]
   intro fix listed
   refine (restored.dirs fix listed).same marks.disk ?_
   rw [log]
   exact List.prefix_append _ _
 · rw [log]
   apply marksOwn_append restored.marks
   intro event inside what i is
   obtain ⟨what', i', same, owned⟩ := changed event inside
   rw [same] at is
   cases is
   exact owned

theorem restored_createOne (ordinary : ∀ x ∈ pathOf hdr.name, Ordinary x)
  (straight : Straight run.disk (pathOf hdr.name))
  (keeps : opts.base.overwrite = true → hdr.typeflag ≠ .dir →
   run.disk.look (pathOf hdr.name) = some .dir → ∀ m ∈ recorded run,
    ¬ pathOf hdr.name <+: pathOf m)
  (restored : Restored first run) : Restored first (createOne opts calls hdr body run).state ∧
   ((createOne opts calls hdr body run).error = none → hdr.typeflag = .dir →
    OwnDir first (createOne opts calls hdr body run).state hdr.name) := by
 obtain ⟨front, last, address⟩ := addressed ordinary
 have entered : Restored first (run.enter hdr) := by
  refine ⟨restored.held.same rfl rfl, fun fix listed => ?_, marksOwn_note restored.marks (by simp)⟩
  exact (restored.dirs fix listed).same rfl (List.prefix_append _ _)
 have phases : Phases opts hdr front last (run.enter hdr)
   (Restored first) (fun s => hdr.typeflag = .dir → OwnDir first s hdr.name)
   (fun s => Own first s.log) := by
  refine ⟨?_, ?_, ?_, ?_⟩
  · exact fun call ended => restored_cleared entered keeps ended
  · intro s disk reached above
    have spares : Spares (fun _ => False) s.disk (s.on disk).disk := above.grown.spares above.wf
    refine ⟨reached.held.spared spares rfl, fun fix listed => ?_, reached.marks⟩
    exact (reached.dirs fix listed).spared reached.held.wf spares not_false (List.prefix_refl _)
  · intro s noted call reached _ notes outcome
    have before := restored_noted reached notes
    have after := restored_outcome ordinary before outcome
    refine ⟨after, fun well => ?_⟩
    obtain ⟨i, node, named, is, owned, isDir, link⟩ := own_outcome before.held outcome well
    refine ⟨fun type => ⟨ordinary, i, named, ?_, owned⟩,
     leads_own address after.held.wf named is owned link⟩
    rw [is, isDir type]
  · intro s s' marks
    refine ⟨fun reached => restored_marked reached marks, fun own type => ?_⟩
    obtain ⟨marked, log, -⟩ := marks.log
    refine (own type).same marks.disk ?_
    rw [log]
    exact List.prefix_append _ _
 exact createOne_keeps address restored.held.wf straight phases

end Entry

section Runs

variable {opts : Options} {first : Nat} {item : Item} {run : Run}

theorem restored_remember {hdr : Tar.Header} (restored : Restored first run)
  (own : hdr.typeflag = .dir → OwnDir first run hdr.name) : Restored first (remember hdr run) := by
 refine ⟨restored.held.same remember_disk remember_materialised, ?_, ?_⟩
 · have same : ∀ name, OwnDir first run name → OwnDir first (remember hdr run) name := by
    intro name denotes
    refine denotes.same remember_disk ?_
    rw [remember_log]
   intro fix listed
   unfold remember at listed
   split at listed
   · rename_i type
     rcases List.mem_append.mp listed with old | new
     · exact same _ (restored.dirs fix old)
     · rw [List.mem_singleton.mp new]
       exact same _ (own type)
   · exact same _ (restored.dirs fix listed)
 · rw [remember_log]
   exact restored.marks

theorem restored_turn (restored : Restored first run) (keeps : KeepsRecorded opts item run) :
  Restored first (turn opts item run).state := by
 refine turn_keeps restored ?_ ?_
 · intro s fault reached
   exact ⟨reached.held.same rfl rfl, fun fix listed =>
    (reached.dirs fix listed).same rfl (List.prefix_refl _), reached.marks⟩
 · intro made treated
   unfold KeepsRecorded KeepsNames at keeps
   rw [treated] at keeps
   have flag := Extract.typeflag_of_create treated
   have created := @restored_createOne opts item.calls made item.body run first
    (ordinary_of_create treated) keeps.1 (by rw [flag]; exact keeps.2) restored
   exact ⟨created.1, fun well => restored_remember created.1 (created.2 well)⟩

theorem own_fix {name : Str} (wf : run.disk.WellFormed) (own : OwnDir first run name) :
  (∀ refusal i, inode (stat true refusal run.disk name) = .ok i → Own first run.log i) ∧
   ∀ answer i, utimesIn answer run.disk name = .ok i → Own first run.log i := by
 obtain ⟨ordinary, i, named, is, owned⟩ := own
 obtain ⟨front, last, address⟩ := addressed ordinary
 rw [address.path] at named
 have parent : run.disk.look front = some .dir := wf.parent front last (by rw [named]; simp)
 refine ⟨?_, ?_⟩
 · intro refusal j answer
   rw [stat_reaches address.hops wf named is (fun _ => rfl) answer]
   exact owned
 · intro answers j answer
   unfold utimesIn at answer
   split at answer
   · cases answer
   · rename_i opened found
     rw [openDir_straight address.parentHops wf parent found, address.base] at answer
     rw [statAt_named named answer]
     exact owned

end Runs

/-- In every extraction in which no entry has a link above its name or takes away a directory that
is recorded or holds what is, metadata changes only on objects of the run and on directories that
directory entries named. -/
theorem extract_marks_own (opts : Options) (order : Order) (answers : Nat → FixCalls)
  (items : List Item) (tail : Option Fault) (disk : Disk) (attrs : Nat → Attrs)
  (original : disk.WellFormed)
  (keeps : Along (turn opts) (KeepsRecorded opts) items (Run.start disk attrs)) :
  MarksOwn disk.next (extract opts order answers items tail (Run.start disk attrs)).state.log := by
 have start : Restored disk.next (Run.start disk attrs) := by
  refine ⟨⟨original, Nat.le_refl _, ?_⟩, ?_, ?_⟩
  · exact fun _ nothing => absurd nothing List.not_mem_nil
  · exact fun _ nothing => absurd nothing List.not_mem_nil
  intro before what i after split
  exact absurd split (by simp [Run.start])
 have turns : ∀ item ∈ items, ∀ s, Restored disk.next s → KeepsRecorded opts item s →
   Restored disk.next (turn opts item s).state :=
  fun item _ s reached keeps => restored_turn reached keeps
 refine (extract_keeps start keeps turns (fun s s' reached marks => restored_marked reached marks)
  ?_).marks
 exact fun s reached fix listed => own_fix reached.held.wf (reached.dirs fix listed)

def sameDirectory : List Item :=
 [plainItem .dir (lit "safe/") [] [], plainItem .reg (lit "safe/g") [] (lit "new")]

/-- The mode of the directory changes, which its entry named. -/
theorem same_directory_own : (extracted sameDirectory guarded).error = none ∧
   MarksOwn guarded.next (extracted sameDirectory guarded).state.log :=
 ⟨by decide +kernel, extract_marks_own _ _ _ _ _ _ _ wellFormed_guarded (by decide +kernel)⟩

def replacedDirectory : List Item :=
 [plainItem .dir (lit "d/") [] [], plainItem .symlink (lit "d") (lit "safe/f") []]

/-- The final pass changes the mode of the file that was there before. -/
theorem replaced_directory_marks_old_file :
  guarded.names [lit "safe", lit "f"] = some 2 ∧ guarded.nodes 2 = some (.file (lit "mine")) ∧
   2 < guarded.next ∧ .changed .mode 2 ∈ (extracted replacedDirectory guarded).state.log ∧
   (extracted replacedDirectory guarded).state.attrs 2 = { plainAttrs with mode := 0o644 } := by
 decide +kernel

end BackImage.Archive.MetadataTargets
