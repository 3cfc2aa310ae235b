/- source: pkg/archive/extract_unix.go
  digest: When a hardlink entry reaches only files that the same extraction wrote. -/

import BackImage.Archive.Overlay

namespace BackImage.Archive.LinkTargets

open Create CreateSteps EntryNames Overlay Go Go.Path Go.Root Go.Text
open Lib.Filesystem Lib.Sequence

/-- A hardlink is made, or copied, from a regular file with an inode that this extraction
created. -/
def OwnTarget (first : Nat) : Event → Prop
 | .linking found | .copying found => ∃ i content, found = some (i, .file content) ∧ first ≤ i
 | _ => True

structure OwnFile (first : Nat) (disk : Disk) (name : Str) : Prop where
 ordinary : ∀ x ∈ pathOf name, Ordinary x
 file : ∃ i content, disk.names (pathOf name) = some i ∧ disk.nodes i = some (.file content) ∧
  first ≤ i

structure Held (first : Nat) (run : Run) : Prop where
 wf : run.disk.WellFormed
 next : first ≤ run.disk.next
 files : ∀ m ∈ run.materialised, OwnFile first run.disk m

/-- No link stands above the name, and no directory goes that holds one of the names given. -/
def KeepsNames (opts : Options) (names : List Str) (item : Item) (run : Run) : Prop :=
 match Extract.treat opts.base item.hdr with
 | .create made => Straight run.disk (pathOf made.name) ∧
   (opts.base.overwrite = true → item.hdr.typeflag ≠ .dir →
    run.disk.look (pathOf made.name) = some .dir → ∀ m ∈ names, ¬ pathOf made.name <+: pathOf m)
 | _ => True

instance (opts : Options) (names : List Str) (item : Item) (run : Run) :
  Decidable (KeepsNames opts names item run) := by
 unfold KeepsNames
 split
 · infer_instance
 · infer_instance

def KeepsTargets (opts : Options) (item : Item) (run : Run) : Prop :=
 KeepsNames opts run.materialised item run

instance (opts : Options) (item : Item) (run : Run) : Decidable (KeepsTargets opts item run) :=
 inferInstanceAs (Decidable (KeepsNames opts run.materialised item run))

variable {opts : Options} {hdr : Tar.Header} {first : Nat}

section Names

variable {disk disk' : Disk} {name : Str} {lost : List Str → Prop}

theorem ownFile_of_spares (wf : disk.WellFormed) (own : OwnFile first disk name)
  (spares : Spares lost disk disk') (kept : ¬ lost (pathOf name)) : OwnFile first disk' name := by
 obtain ⟨ordinary, i, content, named, is, new⟩ := own
 refine ⟨ordinary, i, content, spares.names _ i named kept, ?_, new⟩
 rw [spares.nodes i (wf.known _ i named).1, is]

theorem stat_ownFile (wf : disk.WellFormed) (own : OwnFile first disk name) (follow : Bool) :
  ∃ i content, stat follow none disk name = .ok (i, .file content) ∧ first ≤ i := by
 obtain ⟨ordinary, i, content, named, is, new⟩ := own
 obtain ⟨front, last, address⟩ := addressed ordinary
 rw [address.path] at named
 exact ⟨i, content, stat_named address.hops wf named is fun _ => rfl, new⟩

theorem not_lost {m : Str} (wf : disk.WellFormed) (there : disk.names (pathOf m) ≠ none)
  (keeps : opts.base.overwrite = true → hdr.typeflag ≠ .dir →
   disk.look (pathOf hdr.name) = some .dir → ¬ pathOf hdr.name <+: pathOf m) :
  ¬ (Lost opts hdr disk (pathOf m) ∧ pathOf hdr.name ≠ pathOf m) := by
 rintro ⟨⟨allowed, below, other⟩, proper⟩
 have isDir : disk.look (pathOf hdr.name) = some .dir := dir_of_proper wf below proper there
 have type : hdr.typeflag ≠ .dir := fun type => other ⟨type, isDir⟩
 exact keeps allowed type isDir below

end Names

section Entry

variable {calls : Calls} {body : Bytes} {run run' : Run}

theorem Held.same (held : Held first run) (disk : run'.disk = run.disk)
  (materialised : run'.materialised = run.materialised) : Held first run' := by
 refine ⟨?_, ?_, ?_⟩
 · rw [disk]
   exact held.wf
 · rw [disk]
   exact held.next
 · rw [disk, materialised]
   exact held.files

theorem Held.spared (held : Held first run) (spares : Spares (fun _ => False) run.disk run'.disk)
  (materialised : run'.materialised = run.materialised) : Held first run' := by
 refine ⟨spares.wf, Nat.le_trans held.next spares.next, ?_⟩
 rw [materialised]
 intro m listed
 exact ownFile_of_spares held.wf (held.files m listed) spares not_false

theorem Held.added (held : Held first run) (spares : Spares (fun _ => False) run.disk run'.disk)
  (materialised : run'.materialised = hdr.name :: run.materialised)
  (own : OwnFile first run'.disk hdr.name) : Held first run' := by
 refine ⟨spares.wf, Nat.le_trans held.next spares.next, ?_⟩
 rw [materialised]
 intro m listed
 rcases List.mem_cons.mp listed with rfl | old
 · exact own
 · exact ownFile_of_spares held.wf (held.files m old) spares not_false

theorem held_cleared {call : Effect Run CreateError} (held : Held first run)
  (keeps : opts.base.overwrite = true → hdr.typeflag ≠ .dir →
   run.disk.look (pathOf hdr.name) = some .dir → ∀ m ∈ run.materialised,
    ¬ pathOf hdr.name <+: pathOf m)
  (ended : Cleared opts hdr run call) : Held first call.state := by
 have stays : ∀ m ∈ run.materialised,
   ¬ (Lost opts hdr run.disk (pathOf m) ∧ pathOf hdr.name ≠ pathOf m) := by
  intro m listed
  obtain ⟨-, i, content, named, -⟩ := held.files m listed
  apply not_lost held.wf (by rw [named]; simp)
  exact fun allowed type isDir => keeps allowed type isDir m listed
 cases ended with
 | refused spares =>
  refine ⟨spares.wf, Nat.le_trans held.next spares.next, ?_⟩
  intro m listed
  exact ownFile_of_spares held.wf (held.files m listed) spares (stays m listed)
 | free => exact held
 | kept => exact held
 | removed lost filled =>
  have spares := spares_erase held.wf filled
  refine ⟨spares.wf, Nat.le_trans held.next spares.next, ?_⟩
  intro m left
  obtain ⟨listed, other⟩ := List.mem_filter.mp left
  have differs : pathOf hdr.name ≠ pathOf m := by
   intro same
   exact of_decide_eq_true other (split_injective same).symm
  apply ownFile_of_spares held.wf (held.files m listed) spares
  exact fun below => stays m listed ⟨⟨lost.1, below, lost.2.2⟩, differs⟩

theorem own_noted {noted : Run} (held : Held first run) (notes : Noted hdr run noted) :
  ∀ event ∈ noted.log, event ∈ run.log ∨ OwnTarget first event := by
 have found : hdr.linkname ∈ run.materialised → ∀ follow, ∃ i content,
   reached (stat follow none run.disk hdr.linkname) = some (i, .file content) ∧ first ≤ i := by
  intro target follow
  obtain ⟨i, content, answer, new⟩ := stat_ownFile held.wf (held.files _ target) follow
  refine ⟨i, content, ?_, new⟩
  rw [answer]
  rfl
 cases notes with
 | nothing => exact fun event logged => .inl logged
 | linking target =>
  intro event logged
  rcases List.mem_append.mp logged with old | new
  · exact .inl old
  · rw [List.mem_singleton.mp new]
    exact .inr (found target false)
 | copying target =>
  intro event logged
  rcases List.mem_append.mp logged with early | new
  · rcases List.mem_append.mp early with old | new
    · exact .inl old
    · rw [List.mem_singleton.mp new]
      exact .inr (found target false)
  · rw [List.mem_singleton.mp new]
    exact .inr (found target true)

theorem held_outcome {call : Effect Run CreateError}
  (ordinary : ∀ x ∈ pathOf hdr.name, Ordinary x) (held : Held first run)
  (outcome : Outcome hdr run call) : Held first call.state := by
 cases outcome with
 | failed spares => exact held.spared spares rfl
 | directory type spares => exact held.spared spares rfl
 | object type spares => exact held.spared spares rfl
 | file type spares named is new =>
  exact held.added spares rfl ⟨ordinary, _, _, named, is, Nat.le_trans held.next new⟩
 | linked type spares named is target source =>
  obtain ⟨i, content, answer, new⟩ := stat_ownFile held.wf (held.files _ target) false
  rw [source] at answer
  cases answer
  exact held.added spares rfl ⟨ordinary, _, _, named, is, new⟩

/-- What an entry keeps: the files of the run, and hardlinks that reach only such files. -/
def Sound (first : Nat) (run : Run) : Prop :=
 Held first run ∧ ∀ event ∈ run.log, OwnTarget first event

theorem sound_marked {own : Nat → Prop} (sound : Sound first run) (marks : Marks own run run') :
  Sound first run' := by
 refine ⟨sound.1.same marks.disk marks.materialised, ?_⟩
 obtain ⟨marked, log, changed⟩ := marks.log
 rw [log]
 intro event logged
 rcases List.mem_append.mp logged with old | new
 · exact sound.2 event old
 · obtain ⟨what, i, rfl, -⟩ := changed event new
   exact trivial

theorem sound_createOne (ordinary : ∀ x ∈ pathOf hdr.name, Ordinary x)
  (straight : Straight run.disk (pathOf hdr.name))
  (keeps : opts.base.overwrite = true → hdr.typeflag ≠ .dir →
   run.disk.look (pathOf hdr.name) = some .dir → ∀ m ∈ run.materialised,
    ¬ pathOf hdr.name <+: pathOf m)
  (sound : Sound first run) : Sound first (createOne opts calls hdr body run).state := by
 obtain ⟨front, last, address⟩ := addressed ordinary
 have entered : Sound first (run.enter hdr) := by
  refine ⟨sound.1.same rfl rfl, fun event logged => ?_⟩
  rcases List.mem_append.mp logged with old | new
  · exact sound.2 event old
  · rw [List.mem_singleton.mp new]
    exact trivial
 have phases : Phases opts hdr front last (run.enter hdr)
   (Sound first) (fun _ => True) (fun _ _ => True) := by
  refine ⟨?_, ?_, ?_, ?_⟩
  · intro call ended
    refine ⟨held_cleared entered.1 keeps ended, ?_⟩
    rw [(ended.spares entered.1.wf).2.1]
    exact entered.2
  · intro s disk reached above
    exact ⟨reached.1.spared (above.grown.spares above.wf) rfl, reached.2⟩
  · intro s noted call reached _ notes outcome
    have held : Held first noted := reached.1.same notes.grown.disk notes.grown.materialised
    have targets : ∀ event ∈ noted.log, OwnTarget first event := fun event logged =>
     (own_noted reached.1 notes event logged).elim (reached.2 event) id
    refine ⟨⟨held_outcome ordinary held outcome, ?_⟩, fun _ => ⟨trivial, ?_⟩⟩
    · cases outcome with
      | directory =>
       intro event logged
       rcases List.mem_append.mp logged with old | new
       · exact targets event old
       · rw [List.mem_singleton.mp new]
         exact trivial
      | failed => exact targets
      | object => exact targets
      | file => exact targets
      | linked => exact targets
    · exact ⟨fun _ _ _ => trivial, fun _ _ _ _ => trivial, fun _ _ _ => trivial⟩
  · exact fun s s' marks => ⟨fun reached => sound_marked reached marks, fun _ => trivial⟩
 exact (createOne_keeps address sound.1.wf straight phases).1

end Entry

section Runs

variable {item : Item} {run : Run}

theorem sound_remember {hdr : Tar.Header} (sound : Sound first run) :
  Sound first (remember hdr run) := by
 refine ⟨sound.1.same remember_disk remember_materialised, ?_⟩
 rw [remember_log]
 exact sound.2

theorem sound_turn (sound : Sound first run) (keeps : KeepsTargets opts item run) :
  Sound first (turn opts item run).state := by
 refine turn_keeps sound (fun s _ reached => ⟨reached.1.same rfl rfl, reached.2⟩) ?_
 intro made treated
 unfold KeepsTargets KeepsNames at keeps
 rw [treated] at keeps
 have flag := Extract.typeflag_of_create treated
 have created : Sound first (createOne opts item.calls made item.body run).state :=
  sound_createOne (ordinary_of_create treated) keeps.1 (by rw [flag]; exact keeps.2) sound
 exact ⟨created, fun _ => sound_remember created⟩

end Runs

/-- In every extraction in which no entry has a link above its name or takes away a directory with a
file of the run in it, hardlinks are made and copied only from regular files of the run. -/
theorem extract_links_own (opts : Options) (order : Order) (answers : Nat → FixCalls)
  (items : List Item) (tail : Option Fault) (disk : Disk) (attrs : Nat → Attrs)
  (original : disk.WellFormed)
  (keeps : Along (turn opts) (KeepsTargets opts) items (Run.start disk attrs)) :
  ∀ event ∈ (extract opts order answers items tail (Run.start disk attrs)).state.log,
   OwnTarget disk.next event := by
 have start : Sound disk.next (Run.start disk attrs) :=
  ⟨⟨original, Nat.le_refl _, fun _ nothing => absurd nothing List.not_mem_nil⟩,
   fun _ nothing => absurd nothing List.not_mem_nil⟩
 have turns : ∀ item ∈ items, ∀ s, Sound disk.next s → KeepsTargets opts item s →
   Sound disk.next (turn opts item s).state :=
    fun item _ s reached keeps => sound_turn reached keeps
 have marked : ∀ s s', Sound disk.next s → Marks (fun _ => True) s s' → Sound disk.next s' :=
  fun s s' reached marks => sound_marked reached marks
 refine (extract_keeps start keeps turns marked ?_).2
 exact fun s _ fix _ => ⟨fun _ _ _ => trivial, fun _ _ _ => trivial⟩

def guarded : Disk :=
 (NameTree.bare.create [lit "safe"] .dir).create [lit "safe", lit "f"] (.file (lit "mine"))

theorem wellFormed_guarded : guarded.WellFormed := by
 have base : (NameTree.bare.create [lit "safe"] .dir : Disk).WellFormed :=
  @wellFormed_create _ _ _ _ _ [] _ _ (lit "safe") wellFormed_bare rfl rfl
 exact @wellFormed_create _ _ _ _ _ [lit "safe"] (.file (lit "mine")) _ (lit "f") base
  (by decide +kernel) (by decide +kernel)

def linkedFile : List Item :=
 [plainItem .reg (lit "d/f") [] (lit "new"), plainItem .link (lit "h") (lit "d/f") []]

/-- The hardlink reaches the file of the archive, which has the fifth inode. -/
theorem linked_file_own :
  .linking (some (4, .file (lit "new"))) ∈ (extracted linkedFile guarded).state.log ∧
   OwnTarget guarded.next (.linking (some (4, .file (lit "new")))) := by
 have logged : .linking (some (4, .file (lit "new"))) ∈
  (extracted linkedFile guarded).state.log := by decide +kernel
 exact ⟨logged, extract_links_own _ _ _ _ _ _ _ wellFormed_guarded (by decide +kernel) _ logged⟩

def swappedDirectory : List Item :=
 [plainItem .reg (lit "d/f") [] (lit "new"), plainItem .symlink (lit "d") (lit "safe") [],
  plainItem .link (lit "h") (lit "d/f") []]

/-- The hardlink reaches the file that was there before. -/
theorem swapped_directory_reaches_old_file : guarded.names [lit "safe", lit "f"] = some 2 ∧
   .linking (some (2, .file (lit "mine"))) ∈ (extracted swappedDirectory guarded).state.log ∧
   (extracted swappedDirectory guarded).state.disk.names [lit "h"] = some 2 := by
 decide +kernel

end BackImage.Archive.LinkTargets
