/- source: pkg/archive/extract_unix.go
  digest: An extraction overlays its destination: what no entry names stays as it was. -/

import BackImage.Archive.Overlay

namespace BackImage.Archive.OverlayFrame

open Create CreateSteps EntryNames Overlay Go Go.Path Go.Root Go.Text Lib.Filesystem
open Lib.Sequence

/-- No link stands above the name that an item is about to be created under. -/
def Unlinked (opts : Options) (item : Item) (run : Run) : Prop :=
 match Extract.treat opts.base item.hdr with
 | .create made => Straight run.disk (pathOf made.name)
 | _ => True

instance (opts : Options) (item : Item) (run : Run) : Decidable (Unlinked opts item run) :=
 show Decidable (match Extract.treat opts.base item.hdr with
  | .create made => Straight run.disk (pathOf made.name)
  | _ => True) from
 match Extract.treat opts.base item.hdr with
 | .create made => inferInstanceAs (Decidable (Straight run.disk (pathOf made.name)))
 | .pass | .refuse _ => inferInstanceAs (Decidable True)

/-- The path is the name of an entry, or lies below the name of one that is not a directory. -/
def Covers : Event → List Str → Prop
 | .entry path type, q => q = path ∨ (type ≠ .dir ∧ path <+: q ∧ path ≠ q)
 | _, _ => False

instance : ∀ (event : Event) (q : List Str), Decidable (Covers event q)
 | .entry _ _, _ => inferInstanceAs (Decidable (_ ∨ _))
 | .linking _, _ | .copying _, _ | .directory _, _ | .changed _ _, _ =>
  inferInstanceAs (Decidable False)

def Named (log : List Event) (q : List Str) : Prop := ∃ event ∈ log, Covers event q

instance (log : List Event) (q : List Str) : Decidable (Named log q) :=
 inferInstanceAs (Decidable (∃ event ∈ log, Covers event q))

/-- What the entries so far may have replaced of a tree. A directory stays under entries of
directories. -/
def Replaced (opts : Options) (disk : Disk) (log : List Event) (q : List Str) : Prop :=
 opts.base.overwrite = true ∧ ∃ path type, .entry path type ∈ log ∧ path <+: q ∧
  (type ≠ .dir ∨ (path = q ∧ disk.look q ≠ some .dir))

variable {opts : Options} {disk : Disk}

theorem named_of_replaced {log : List Event} {q : List Str} (replaced : Replaced opts disk log q) :
  Named log q := by
 obtain ⟨-, path, type, logged, below, why⟩ := replaced
 refine ⟨_, logged, ?_⟩
 by_cases here : path = q
 · exact .inl here.symm
 · exact .inr ⟨why.resolve_right fun whole => here whole.1, below, here⟩

section Entry

variable {opts : Options} {calls : Calls} {hdr : Tar.Header} {body : Bytes} {run run' : Run}
 {disk : Disk} {front : List Str} {last : Str}

def Overlaid (opts : Options) (disk : Disk) (run : Run) : Prop :=
 Spares (Replaced opts disk run.log) disk run.disk

theorem overlaid_of_log (overlaid : Overlaid opts disk run) (same : run'.disk = run.disk)
  (longer : run.log <+: run'.log) : Overlaid opts disk run' := by
 unfold Overlaid at overlaid ⊢
 rw [same]
 refine overlaid.mono ?_
 rintro q - ⟨allowed, path, type, logged, rest⟩
 exact ⟨allowed, path, type, longer.subset logged, rest⟩

theorem overlaid_of_spares (overlaid : Overlaid opts disk run)
  (spares : Spares (fun _ => False) run.disk run'.disk) (longer : run.log <+: run'.log) :
  Overlaid opts disk run' := by
 have further : Spares (Replaced opts disk run.log) disk run'.disk :=
  Spares.trans overlaid (spares.mono fun _ _ never => never.elim)
 have here : Overlaid opts disk (run.on run'.disk) := further
 exact overlaid_of_log here rfl longer

theorem overlaid_of_lost {disk' : Disk} (overlaid : Overlaid opts disk run)
  (original : disk.WellFormed) (logged : .entry (pathOf hdr.name) hdr.typeflag ∈ run.log)
  (spares : Spares (Lost opts hdr run.disk) run.disk disk') :
  Overlaid opts disk (run.on disk') := by
 have wf : run.disk.WellFormed := overlaid.wf
 refine ⟨spares.wf, Nat.le_trans overlaid.next spares.next, ?_, ?_⟩
 · intro i old
   rw [← overlaid.nodes i old]
   exact spares.nodes i (Nat.lt_of_lt_of_le old overlaid.next)
 · intro q i named kept
   have still : run.disk.names q = some i := overlaid.names q i named kept
   apply spares.names q i still
   rintro ⟨allowed, below, other⟩
   refine kept ⟨allowed, _, _, logged, below, ?_⟩
   by_cases type : hdr.typeflag = .dir
   · -- an entry of a directory takes away what is no directory, and nothing lies below that
     right
     have notDir : run.disk.look (pathOf hdr.name) ≠ some .dir := fun there => other ⟨type, there⟩
     by_cases here : pathOf hdr.name = q
     · refine ⟨here, fun wasDir => notDir ?_⟩
       rw [here]
       exact Spares.look overlaid original kept wasDir
     · refine absurd (dir_of_proper wf below here ?_) notDir
       rw [still]
       simp
   · exact .inl type

theorem overlaid_createOne (original : disk.WellFormed) (address : Addressed hdr.name front last)
  (straight : Straight run.disk (pathOf hdr.name)) (overlaid : Overlaid opts disk run) :
  Overlaid opts disk (createOne opts calls hdr body run).state := by
 have entered : Overlaid opts disk (run.enter hdr) :=
  overlaid_of_log overlaid rfl (List.prefix_append _ _)
 have phases : Phases opts hdr front last (run.enter hdr)
   (Overlaid opts disk) (fun _ => True) (fun _ _ => True) := by
  refine ⟨?_, ?_, ?_, ?_⟩
  · intro call ended
    obtain ⟨spares, log, -⟩ := ended.spares entered.wf
    have lost := overlaid_of_lost entered original
     (List.mem_append_right _ List.mem_cons_self) spares
    refine overlaid_of_log lost rfl ?_
    rw [log]
    exact List.prefix_refl _
  · intro s disk' reached above
    exact overlaid_of_spares reached (above.grown.spares above.wf) (List.prefix_refl _)
  · intro s noted call reached _ notes outcome
    have grown := notes.grown
    refine ⟨overlaid_of_spares reached ?_ (grown.log.trans outcome.log), fun _ => ⟨trivial, ?_⟩⟩
    · rw [← grown.disk]
      exact outcome.spares
    · exact ⟨fun _ _ _ => trivial, fun _ _ _ _ => trivial, fun _ _ _ => trivial⟩
  · intro s s' marks
    obtain ⟨marked, log, -⟩ := marks.log
    refine ⟨fun reached => overlaid_of_log reached marks.disk ?_, fun _ => trivial⟩
    rw [log]
    exact List.prefix_append _ _
 exact (createOne_keeps address overlaid.wf straight phases).1

end Entry

theorem overlaid_turn {item : Item} {run : Run} (original : disk.WellFormed)
  (overlaid : Overlaid opts disk run)
  (unlinked : Unlinked opts item run) : Overlaid opts disk (turn opts item run).state := by
 refine turn_keeps overlaid (fun _ _ reached => reached) ?_
 intro made treated
 unfold Unlinked at unlinked
 rw [treated] at unlinked
 obtain ⟨front, last, address⟩ := addressed (ordinary_of_create treated)
 have created := @overlaid_createOne opts item.calls made item.body run disk
  front last original address unlinked overlaid
 refine ⟨created, fun _ => overlaid_of_log created remember_disk ?_⟩
 rw [remember_log]

theorem overlaid_extract {order : Order} {answers : Nat → FixCalls}
  {items : List Item} {tail : Option Fault} {attrs : Nat → Attrs} (original : disk.WellFormed)
  (unlinked : Along (turn opts) (Unlinked opts) items (Run.start disk attrs)) :
  Overlaid opts disk (extract opts order answers items tail (Run.start disk attrs)).state := by
 have start : Overlaid opts disk (Run.start disk attrs) := Spares.refl original
 have turns : ∀ item ∈ items, ∀ s, Overlaid opts disk s → Unlinked opts item s →
   Overlaid opts disk (turn opts item s).state :=
  fun item _ s reached free => overlaid_turn original reached free
 have marked : ∀ s s', Overlaid opts disk s → Marks (fun _ => True) s s' →
   Overlaid opts disk s' := by
  intro s s' reached marks
  obtain ⟨marked, log, -⟩ := marks.log
  refine overlaid_of_log reached marks.disk ?_
  rw [log]
  exact List.prefix_append _ _
 apply extract_keeps start unlinked turns marked
 exact fun s _ fix _ => ⟨fun _ _ _ => trivial, fun _ _ _ => trivial⟩

/-- What was there keeps its name and its inode, and the inode what it is. -/
def Stays (before after : Disk) (q : List Str) (i : Nat) : Prop :=
 after.names q = some i ∧ after.nodes i = before.nodes i

theorem stays_of_overlaid {run : Run} {q : List Str} {i : Nat}
  (original : disk.WellFormed) (overlaid : Overlaid opts disk run)
  (named : disk.names q = some i) (kept : ¬ Replaced opts disk run.log q) :
  Stays disk run.disk q i :=
 ⟨overlaid.names q i named kept, overlaid.nodes i (original.known q i named).1⟩

/-- With `Overwrite`, everything stays that no entry names and that does not lie below an entry
other than a directory, and so do directories that only entries of directories name. Without it,
everything stays. -/
theorem extract_overlays (opts : Options) (order : Order) (answers : Nat → FixCalls)
  (items : List Item) (tail : Option Fault) (disk : Disk) (attrs : Nat → Attrs)
  (original : disk.WellFormed)
  (unlinked : Along (turn opts) (Unlinked opts) items (Run.start disk attrs)) :
  let ended := (extract opts order answers items tail (Run.start disk attrs)).state
  (opts.base.overwrite = true → ∀ q i, disk.names q = some i → ¬ Named ended.log q →
   Stays disk ended.disk q i) ∧
   (opts.base.overwrite = true → ∀ q i, disk.names q = some i → disk.nodes i = some .dir →
    (∀ path type, .entry path type ∈ ended.log → path <+: q → type = .dir) →
    Stays disk ended.disk q i) ∧
   (opts.base.overwrite = false → ∀ q i, disk.names q = some i → Stays disk ended.disk q i) := by
 intro ended
 have overlaid : Overlaid opts disk ended := overlaid_extract original unlinked
 refine ⟨?_, ?_, ?_⟩
 · intro _ q i named free
   exact stays_of_overlaid original overlaid named fun replaced => free (named_of_replaced replaced)
 · intro _ q i named isDir dirs
   refine stays_of_overlaid original overlaid named ?_
   rintro ⟨-, path, type, logged, below, why⟩
   have dirEntry : type = .dir := dirs path type logged below
   have wasDir : disk.look q = some .dir := by
    rw [look_of_names named, isDir]
   exact why.elim (fun other => other dirEntry) fun same => same.2 wasDir
 · intro refused q i named
   refine stays_of_overlaid original overlaid named ?_
   rintro ⟨allowed, -⟩
   rw [refused] at allowed
   cases allowed

def populated : Disk :=
 ((NameTree.bare.create [lit "data"] .dir).create [lit "data", lit "keep"]
  (.file (lit "mine"))).create
  [lit "data", lit "log"] (.file (lit "old"))

theorem wellFormed_populated : populated.WellFormed := by
 have base : (NameTree.bare.create [lit "data"] .dir : Disk).WellFormed :=
  @wellFormed_create _ _ _ _ _ [] _ _ (lit "data") wellFormed_bare rfl rfl
 have filled := @wellFormed_create _ _ _ _ _ [lit "data"] (.file (lit "mine")) _ (lit "keep") base
  (by decide +kernel) (by decide +kernel)
 exact @wellFormed_create _ _ _ _ _ [lit "data"] (.file (lit "old")) _ (lit "log") filled
  (by decide +kernel) (by decide +kernel)

def restored : List Item :=
 [plainItem .dir (lit "data/") [] [], plainItem .reg (lit "data/log") [] (lit "new")]

example : (extracted restored populated).state.disk.look [lit "data", lit "log"] =
  some (.file (lit "new")) := by
 decide +kernel

theorem other_file_stays :
  Stays populated (extracted restored populated).state.disk [lit "data", lit "keep"] 2 :=
 (extract_overlays _ _ _ _ _ _ _ wellFormed_populated (by decide +kernel)).1 rfl
  [lit "data", lit "keep"] 2
  (by decide +kernel) (by decide +kernel)

end BackImage.Archive.OverlayFrame
