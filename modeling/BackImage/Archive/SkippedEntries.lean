/- source: pkg/archive/extract_unix.go
  digest: An entry that is reported as not created has already removed what its name denoted. -/

import BackImage.Archive.OverlayFrame

namespace BackImage.Archive.SkippedEntries

open Create CreateSteps OverlayFrame Go Go.Root Go.Text Lib.Filesystem
open Lib.Sequence

/-- The type is not supported, or the target of a hardlink was not restored. -/
def Skips : CreateError → Prop
 | .unsupported _ _ | .linkTargetNotRestored _ _ => True
 | _ => False

def NotCreated : Fault → Prop
 | .creating err => Skips err
 | .refused (.linkTargetNotRestored _) => True
 | _ => False

/-- The error that a turn stops with or adds to the errors of the run. -/
def Reports (opts : Options) (item : Item) (run : Run) (fault : Fault) : Prop :=
 (turn opts item run).error = some fault ∨
  ((turn opts item run).error = none ∧ (turn opts item run).state.errors = run.errors ++ [fault])

def Untouched (before after : Disk) : Prop :=
 ∀ q i, before.names q = some i → Stays before after q i

def Free (opts : Options) (item : Item) (run : Run) : Prop :=
 match Extract.treat opts.base item.hdr with
 | .create made => stat false none run.disk made.name = .error .notExist
 | _ => True

section Errors

variable {opts : Options} {calls : Calls} {hdr : Tar.Header} {body : Bytes} {parent : List Str}
 {run : Run}

theorem error_clearName : ∀ e, (clearName opts calls hdr run).error = some e → ¬ Skips e := by
 intro e failed
 unfold clearName at failed
 split at failed
 · split at failed
   · cases failed
     exact id
   · split at failed
     · cases failed
     · split at failed
       · cases failed
         exact id
       · cases failed
 · cases failed
 · cases failed
   exact id

theorem error_makeParents : ∀ e, (makeParents calls hdr run).error = some e → ¬ Skips e := by
 intro e failed
 unfold makeParents at failed
 split at failed
 · cases failed
 · split at failed
   · cases failed
     exact id
   · cases failed

theorem error_change {strict : Bool} {what : Change} {name : Str} {set : Attrs → Attrs}
  {found : Except OsErr Nat} :
  ∀ e, (change strict what name set run found).error = some e → ¬ Skips e := by
 intro e failed
 cases found with
 | ok i => cases failed
 | error cause =>
  unfold change degrade at failed
  dsimp only at failed
  split at failed
  · cases failed
    exact id
  · cases failed

theorem error_applyXattrs : ∀ e, (applyXattrs opts calls hdr run).error = some e → ¬ Skips e := by
 have one : ∀ i pair s e, (setXattr opts calls hdr i pair s).error = some e → ¬ Skips e := by
  intro i pair s e failed
  unfold setXattr at failed
  split at failed
  · exact error_change e failed
  · split at failed
    · cases failed
    · unfold degrade at failed
      split at failed
      · cases failed
        exact id
      · cases failed
 intro e failed
 unfold applyXattrs at failed
 split at failed
 · cases failed
 · split at failed
   · cases failed
   · split at failed
     · unfold degrade at failed
       split at failed
       · cases failed
         exact id
       · cases failed
     · exact runAll_error (one _) _ _ e failed

theorem error_applyMetadata : ∀ e, (applyMetadata opts calls hdr parent run).error = some e →
  ¬ Skips e := by
 have owner : ∀ s e, (applyOwner opts calls hdr s).error = some e → ¬ Skips e := by
  intro s e failed
  unfold applyOwner at failed
  split at failed
  · exact error_change e failed
  · cases failed
 have mode : ∀ s e, (applyMode opts calls hdr s).error = some e → ¬ Skips e := by
  intro s e failed
  unfold applyMode at failed
  split at failed
  · cases failed
  · exact error_change e failed
 have times : ∀ s e, (applyTimes opts calls hdr parent s).error = some e → ¬ Skips e := by
  intro s e failed
  unfold applyTimes at failed
  split at failed
  · cases failed
  · exact error_change e failed
 apply andThen_error (owner run)
 intro s
 apply andThen_error (mode s)
 intro s
 exact andThen_error error_applyXattrs times

variable {e : CreateError}

theorem error_place (failed : (place opts calls hdr body parent run).error = some e)
  (skips : Skips e) : hdr.typeflag ≠ .dir ∧
  (place opts calls hdr body parent run).state.disk = run.disk := by
 unfold place at failed ⊢
 cases type : hdr.typeflag with
 | dir =>
  rw [type] at failed
  unfold placeDir at failed
  dsimp only at failed
  split at failed
  · cases failed
    exact skips.elim
  · cases failed
 | reg =>
  rw [type] at failed
  unfold placeFile at failed
  dsimp only at failed
  split at failed
  · cases failed
    exact skips.elim
  · split at failed
    · cases failed
      exact skips.elim
    · split at failed
      · cases failed
        exact skips.elim
      · cases failed
 | symlink =>
  rw [type] at failed
  unfold placeSymlink at failed
  dsimp only at failed
  split at failed
  · cases failed
    exact skips.elim
  · cases failed
 | link =>
  refine ⟨by simp, ?_⟩
  rw [type] at failed
  unfold placeLink at failed ⊢
  dsimp only at failed ⊢
  split at failed
  · rename_i unlisted
    rw [if_pos unlisted]
    rfl
  · split at failed
    · cases failed
    · split at failed
      · cases failed
        exact skips.elim
      · split at failed
        · cases failed
          exact skips.elim
        · split at failed
          · cases failed
            exact skips.elim
          · cases failed
 | other flag => exact ⟨by simp, rfl⟩
 | _ =>
  rw [type] at failed
  unfold placeNode at failed
  dsimp only at failed
  split at failed
  · cases failed
    exact skips.elim
  · cases failed

theorem skipped_steps (failed : (createOne opts calls hdr body run).error = some e)
  (skips : Skips e) : ∃ s, clearName opts calls hdr (run.enter hdr) = done s ∧
   hdr.typeflag ≠ .dir ∧
   (createOne opts calls hdr body run).state.disk = (makeParents calls hdr s).state.disk := by
 unfold createOne at failed ⊢
 rcases (clearName opts calls hdr
  (run.enter hdr)).eq_done_or_stop with well | ⟨e', stopped⟩
 · rw [well, done_andThen] at failed ⊢
   refine ⟨_, rfl, ?_⟩
   generalize (clearName opts calls hdr (run.enter hdr)).state = s at failed ⊢
   rcases (makeParents calls hdr s).eq_done_or_stop with made | ⟨e', stopped⟩
   · rw [made, done_andThen] at failed ⊢
     change hdr.typeflag ≠ .dir ∧ _ = (makeParents calls hdr s).state.disk
     generalize (makeParents calls hdr s).state = s' at failed ⊢
     unfold createIn at failed ⊢
     cases answer : openParent calls.openParent s'.disk hdr.name with
     | error cause =>
      rw [answer] at failed
      cases failed
      exact skips.elim
     | ok parent =>
      rw [answer] at failed
      dsimp only at failed ⊢
      rcases (place opts calls hdr body parent s').eq_done_or_stop with placed | ⟨e', stopped⟩
      · rw [placed, done_andThen] at failed
        exact absurd skips (error_applyMetadata e failed)
      · have error : (place opts calls hdr body parent s').error = some e := by
         rw [stopped, stop_andThen] at failed
         rw [stopped]
         exact failed
        rw [stopped, stop_andThen, ← stopped]
        exact error_place error skips
   · have error : (makeParents calls hdr s).error = some e := by
      rw [stopped, stop_andThen] at failed
      rw [stopped]
      exact failed
     exact absurd skips (error_makeParents e error)
 · have error : (clearName opts calls hdr
     (run.enter hdr)).error = some e := by
    rw [stopped, stop_andThen] at failed
    rw [stopped]
    exact failed
   exact absurd skips (error_clearName e error)

theorem extends_makeParents (wf : run.disk.WellFormed) :
  Extends run.disk (makeParents calls hdr run).state.disk := by
 have made := (@extends_mkdirAll run.disk (Path.dir hdr.name) wf calls.mkdirParent).1
 unfold makeParents
 split
 · exact Extends.refl _
 · split
   · rename_i answer
     rw [answer] at made
     exact made
   · rename_i answer
     rw [answer] at made
     exact made

variable {before after : Disk}

theorem untouched_of_extends (wf : before.WellFormed) (grown : Extends before after) :
  Untouched before after :=
 fun q i named => ⟨grown.names q i named, grown.nodes i (wf.known q i named).1⟩

theorem touched_of_erase {p : List Str} {i : Nat} (wf : before.WellFormed)
  (named : before.names p = some i) (grown : Extends (before.erase p) after) :
  ¬ Untouched before after := by
 intro untouched
 have still : after.names p = some i := (untouched p i named).1
 rcases grown.fresh p i still with old | new
 · rw [names_erase, if_pos (List.prefix_refl p)] at old
   cases old
 · exact Nat.not_le_of_lt (wf.known p i named).1 new

theorem clearName_eq_done {s : Run} (ended : clearName opts calls hdr run = done s)
  (type : hdr.typeflag ≠ .dir) :
  (stat false none run.disk hdr.name = .error .notExist ∧ s = run) ∨
   ∃ p i object, stat false none run.disk hdr.name = .ok (i, object) ∧
    run.disk.names p = some i ∧ p ≠ [] ∧ s.disk = run.disk.erase p := by
 unfold clearName at ended
 split at ended
 · rename_i i existing answer
   obtain ⟨unrefused, p, found, named, is⟩ := stat_eq_ok.mp answer
   rw [unrefused] at answer
   split at ended
   · exact absurd ended stop_ne_done
   · split at ended
     · rename_i same
       exact absurd same.2 type
     · split at ended
       · exact absurd ended stop_ne_done
       · rename_i disk removed
         refine .inr ⟨p, i, existing, answer, named, ?_⟩
         rcases removeAll_eq_none removed with ⟨missing, -⟩ | ⟨q, again, filled, erased⟩
         · rw [found] at missing
           cases missing
         · rw [found] at again
           cases again
           rw [← done_inj.mp ended]
           exact ⟨filled, erased⟩
 · rename_i missing
   refine .inl ⟨?_, (done_inj.mp ended).symm⟩
   cases refusal : calls.lstat with
   | some r =>
    rw [refusal] at missing
    cases missing
   | none =>
    rw [refusal] at missing
    exact missing
 · exact absurd ended stop_ne_done

theorem skipped_untouched (wf : run.disk.WellFormed)
  (failed : (createOne opts calls hdr body run).error = some e) (skips : Skips e) :
  Untouched run.disk (createOne opts calls hdr body run).state.disk ↔
   stat false none run.disk hdr.name = .error .notExist := by
 obtain ⟨s, ended, type, disk⟩ := skipped_steps failed skips
 rw [disk]
 rcases clearName_eq_done ended type with
  ⟨missing, same⟩ | ⟨p, i, object, found, named, filled, erased⟩
 · have kept : s.disk = run.disk := by rw [same]; rfl
   have grown := @extends_makeParents calls hdr s (by rw [kept]; exact wf)
   rw [kept] at grown
   exact iff_of_true (untouched_of_extends wf grown) missing
 · have grown := @extends_makeParents calls hdr s (by rw [erased]; exact wellFormed_erase wf filled)
   rw [erased] at grown
   have present : stat false none run.disk hdr.name ≠ .error .notExist := by
    intro missing
    change stat false none run.disk hdr.name = .ok (i, object) at found
    rw [missing] at found
    cases found
   exact iff_of_false (touched_of_erase wf named grown) present

end Errors

section Turn

variable {opts : Options} {item : Item} {run : Run} {fault : Fault}

theorem untouched_refl (disk : Disk) : Untouched disk disk := fun _ _ named => ⟨named, rfl⟩

variable {strict fatal : Bool} {cause : Fault}

theorem skip_reports {s : Run} (same : s.errors = run.errors)
  (reports : (skip strict fatal cause s).error = some fault ∨
   ((skip strict fatal cause s).error = none ∧
    (skip strict fatal cause s).state.errors = run.errors ++ [fault])) : fault = cause := by
 unfold skip at reports
 split at reports
 · rcases reports with stopped | ⟨well, -⟩
   · exact (Option.some.inj stopped).symm
   · cases well
 · rcases reports with stopped | ⟨-, errors⟩
   · cases stopped
   · change s.errors ++ [cause] = run.errors ++ [fault] at errors
     rw [same] at errors
     exact (List.singleton_inj.mp (List.append_cancel_left errors)).symm

theorem skip_disk : (skip strict fatal cause run).state.disk = run.disk := by
 unfold skip
 split
 · rfl
 · rfl

theorem not_reported {call : Effect Run Fault} (well : call.error = none)
  (same : call.state.errors = run.errors) :
  ¬ (call.error = some fault ∨
   (call.error = none ∧ call.state.errors = run.errors ++ [fault])) := by
 rintro (stopped | ⟨-, errors⟩)
 · rw [well] at stopped
   cases stopped
 · rw [same] at errors
   have lengths := congrArg List.length errors
   simp at lengths

theorem turn_untouched (wf : run.disk.WellFormed) (reports : Reports opts item run fault)
  (kind : NotCreated fault) :
  Untouched run.disk (turn opts item run).state.disk ↔ Free opts item run := by
 unfold Reports at reports
 unfold Free
 unfold turn at reports ⊢
 cases cancelled : item.cancelled with
 | some cause =>
  rw [cancelled] at reports
  rcases reports with stopped | ⟨impossible, -⟩
  · cases stopped
    exact kind.elim
  · cases impossible
 | none =>
  rw [cancelled] at reports
  dsimp only at reports ⊢
  cases treated : Extract.treat opts.base item.hdr with
  | pass =>
   rw [treated] at reports
   exact absurd reports (not_reported rfl rfl)
  | refuse cause =>
   dsimp only
   rw [skip_disk]
   exact iff_of_true (untouched_refl _) trivial
  | create made =>
   rw [treated] at reports
   dsimp only at reports ⊢
   have advances := @advances_createOne opts item.calls made item.body run wf
   split at reports
   · refine absurd reports (not_reported rfl ?_)
     change (remember _ _).errors = _
     rw [remember_errors]
     exact advances.errors
   · rename_i err failed
     rw [skip_reports advances.errors reports] at kind
     rw [skip_disk]
     exact skipped_untouched wf failed kind

end Turn

/-- At every position of an archive: an entry reported as not created, because its type is not
supported or its hardlink target was not restored, has left everything in the destination as it was
exactly if its name denoted nothing or it was refused before the destination was looked at. -/
theorem skipped_untouched_iff (opts : Options) (disk : Disk) (attrs : Nat → Attrs)
  (before : List Item) (item : Item) (run : Run) (fault : Fault) (original : disk.WellFormed)
  (reached : runAll (turn opts) before (Run.start disk attrs) = done run)
  (reports : Reports opts item run fault) (kind : NotCreated fault) :
  Untouched run.disk (turn opts item run).state.disk ↔ Free opts item run := by
 have wf : (runAll (turn opts) before (Run.start disk attrs)).state.disk.WellFormed :=
  (follows_turns original before).wf
 rw [reached] at wf
 exact turn_untouched wf reports kind

def unrestored : Item := plainItem .link (lit "notes") (lit "absent") []

def unrestoredFault : Fault := .creating (.linkTargetNotRestored (lit "notes") (lit "absent"))

def ownNotes : Disk := NameTree.bare.create [lit "notes"] (.file (lit "mine"))

/-- The entry is reported as not created, and the file that was there is gone. -/
theorem unrestored_link_removes_file : ownNotes.look [lit "notes"] = some (.file (lit "mine")) ∧
   (extracted [unrestored] ownNotes).error = none ∧
   (extracted [unrestored] ownNotes).state.errors = [unrestoredFault] ∧
   (extracted [unrestored] ownNotes).state.disk.names [lit "notes"] = none := by
 decide +kernel

/-- `--strip-components 1`. -/
def stripping : Options :=
 { overwriting with base := { overwriting.base with stripComponents := 1 } }

def cutOff : Item := plainItem .link (lit "old/notes") (lit "absent") []

/-- Where nothing is left of the target's name the entry is refused in time. -/
theorem cut_target_keeps_file : ownNotes.look [lit "notes"] = some (.file (lit "mine")) ∧
   Untouched ownNotes
   (turn stripping cutOff (Run.start ownNotes fun _ => plainAttrs)).state.disk := by
 have original : ownNotes.WellFormed :=
  @wellFormed_create _ _ _ _ _ [] _ _ (lit "notes") wellFormed_bare rfl rfl
 refine ⟨by decide +kernel,
  (skipped_untouched_iff stripping ownNotes (fun _ => plainAttrs) [] cutOff
  (Run.start ownNotes fun _ => plainAttrs) (.refused (.linkTargetNotRestored (lit "notes")))
   original rfl
  (.inr ⟨by decide +kernel, by decide +kernel⟩) trivial).mpr ?_⟩
 have refused : Extract.treat stripping.base cutOff.hdr =
   .refuse (.linkTargetNotRestored (lit "notes")) := by
  decide +kernel
 rw [Free, refused]
 exact trivial

end BackImage.Archive.SkippedEntries
