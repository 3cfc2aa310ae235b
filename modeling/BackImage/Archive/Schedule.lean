/- source: pkg/archive/writer.go
  digest: The walk is the run of a list of steps that the trees and the options determine. -/

import BackImage.Archive.EntryStep

namespace BackImage.Archive.Schedule

open Writer EntryStep Go.ModeBits Go.Path Go.Text Lib.Sequence

inductive Step
 | enter (root : Str)
 | abort (err : WalkError)
 | settle (st : FileInfo)
 | poll (root : Str) (cancelled : Option Str)
 | emit (arcPath fsPath : Str) (a : Answers) (st : FileInfo) (dirFile : Option Descriptor)
 | skip
 | fault (err : WalkError)

def perform (ar : Archiver) : Step → TarWriter → Effect TarWriter WalkError
 | .enter root, w =>
  match w.rootBases.lookup (base root) with
  | some previous => stop w (.collision (base root) previous root)
  | none => done { w with rootBases := (base root, root) :: w.rootBases }
 | .abort err, w => stop w err
 | .settle st, w => done { w with devSeen := deviceAfter ar.opts w.devSeen st }
 | .poll root cancelled, w =>
  match cancelled with
  | some cause => stop w (.cancelled root cause)
  | none => done w
 | .emit arcPath fsPath a st dirFile, w => emitOne ar arcPath fsPath a st dirFile w
 | .skip, w => done w.skip
 | .fault err, w => handleWalkError ar.opts err w

def childSteps (fsRoot : Str) (cancelled : FileName → Option Str) (below : FileName → List Step)
  (names : List FileName) : List Step :=
 names.flatMap fun name => .poll fsRoot (cancelled name) :: below name

/-- The steps of `walkEntry`. -/
def entrySteps (opts : Options) (devSeen : Option UInt64) (fsRoot : Str) : Tree → Str → Str →
  List Step
 | .missing _ cause, _, fsPath => [.fault (.lstat fsPath cause)]
 | .node a names child, rel, fsPath =>
  match a.lstat with
  | .error cause => [.fault (.lstat fsPath cause)]
  | .ok st =>
   if otherDevice opts devSeen st then
    if isDir st.mode then [.emit rel fsPath a st (openVerified a st).toOption, .skip]
    else [.skip]
   else if isDir st.mode then
    match list a names st with
    | .error cause =>
     if cause.permission then [.emit rel fsPath a st none, .skip]
     else [.fault (.readdir fsPath cause)]
    | .ok (f, found) =>
     .emit rel fsPath a st (some f) ::
      childSteps fsRoot (fun name => (child name).answers.cancelled)
       (fun name => entrySteps opts devSeen fsRoot (child name)
        (rel ++ slash :: name.text) (joinPath fsPath name.text)) found
   else [.emit rel fsPath a st none]

def rootBody (opts : Options) (devSeen : Option UInt64) (root : Str) (st : FileInfo) : Tree →
  List Step
 | .missing _ _ => []
 | .node a names child =>
  if otherDevice opts devSeen st then [.skip]
  else if isDir st.mode then
   match list a names st with
   | .error cause =>
    if opts.strict then [.fault (.readdirRoot root cause)]
    else [.emit (base root) root a st none, .fault (.readdir root cause)]
   | .ok (f, found) =>
    .emit (base root) root a st (some f) ::
     childSteps root (fun name => (child name).answers.cancelled)
      (fun name => entrySteps opts devSeen root (child name)
       (base root ++ slash :: name.text) (joinPath root name.text)) found
  else [.emit (base root) root a st none]

def rootSteps (opts : Options) (devSeen : Option UInt64) (root : Str) (tree : Tree) : List Step :=
 match tree.answers.lstat with
 | .error cause => [.abort (.lstatRoot root cause)]
 | .ok st => .settle st :: rootBody opts (deviceAfter opts devSeen st) root st tree

def deviceBehind (opts : Options) (devSeen : Option UInt64) (tree : Tree) : Option UInt64 :=
 match tree.answers.lstat with
 | .error _ => devSeen
 | .ok st => deviceAfter opts devSeen st

def schedule (opts : Options) : Option UInt64 → List (Str × Tree) → List Step
 | _, [] => []
 | devSeen, (root, tree) :: rest =>
  .enter (clean root) :: rootSteps opts devSeen (clean root) tree ++
   schedule opts (deviceBehind opts devSeen tree) rest

def Step.inner : Step → Bool
 | .enter _ | .abort _ | .settle _ => false
 | _ => true

def pathBelow (top : Str) : List FileName → Str
 | [] => top
 | name :: rest => pathBelow (top ++ slash :: name.text) rest

def Step.arcPath : Step → Option Str
 | .emit arcPath _ _ _ _ => some arcPath
 | _ => none

def arcPaths (steps : List Step) : List Str := steps.filterMap Step.arcPath

/-- What the steps for the object at a path look like: at most one entry, for the path itself, or
the entry of a directory and then the steps for its names. -/
inductive Walk : Str → List Step → Prop
 | leaf {rel : Str} {steps : List Step} (inner : steps.all Step.inner = true)
   (paths : arcPaths steps = [] ∨ arcPaths steps = [rel]) : Walk rel steps
 | directory {rel fsPath fsRoot : Str} {a : Answers} {st : FileInfo} {dirFile : Option Descriptor}
   {cancelled : FileName → Option Str} {below : FileName → List Step} {names : List FileName}
   (distinct : names.Nodup) (each : ∀ name, Walk (rel ++ slash :: name.text) (below name)) :
   Walk rel (.emit rel fsPath a st dirFile :: childSteps fsRoot cancelled below names)

variable {opts : Options} {devSeen : Option UInt64} {fsRoot : Str} {step : Step} {ar : Archiver}
 {w : TarWriter}

section Shape

variable {rel : Str} {steps : List Step}

theorem walk_entrySteps {fsPath : Str} (tree : Tree) :
  Walk rel (entrySteps opts devSeen fsRoot tree rel fsPath) := by
 induction tree generalizing rel fsPath with
 | missing cancelled cause => exact .leaf rfl (.inl rfl)
 | node a names child ih =>
  rw [entrySteps]
  split
  · exact .leaf rfl (.inl rfl)
  · split
    · split
      · exact .leaf rfl (.inr rfl)
      · exact .leaf rfl (.inl rfl)
    · split
      · split
        · split
          · exact .leaf rfl (.inr rfl)
          · exact .leaf rfl (.inl rfl)
        · rename_i listed
          refine .directory ?_ fun name => ih name
          rw [list_eq_ok listed]
          exact nodup_sorted names
      · exact .leaf rfl (.inr rfl)

theorem walk_rootBody {root : Str} {st : FileInfo} (tree : Tree) :
  Walk (base root) (rootBody opts devSeen root st tree) := by
 cases tree with
 | missing cancelled cause => exact .leaf rfl (.inl rfl)
 | node a names child =>
  rw [rootBody]
  split
  · exact .leaf rfl (.inl rfl)
  · split
    · split
      · split
        · exact .leaf rfl (.inl rfl)
        · exact .leaf rfl (.inr rfl)
      · rename_i listed
        refine .directory ?_ fun name => walk_entrySteps (child name)
        rw [list_eq_ok listed]
        exact nodup_sorted names
    · exact .leaf rfl (.inr rfl)

theorem mem_childSteps {cancelled : FileName → Option Str} {below : FileName → List Step}
  {names : List FileName} (inside : step ∈ childSteps fsRoot cancelled below names) :
  ∃ name, step = .poll fsRoot (cancelled name) ∨ step ∈ below name := by
 obtain ⟨name, -, here⟩ := List.mem_flatMap.mp inside
 exact ⟨name, List.mem_cons.mp here⟩

theorem Walk.inner (walk : Walk rel steps) : ∀ step ∈ steps, step.inner = true := by
 induction walk with
 | leaf inner paths => exact List.all_eq_true.mp inner
 | directory distinct each ih =>
  intro step inside
  rcases List.mem_cons.mp inside with rfl | later
  · rfl
  · obtain ⟨name, rfl | deeper⟩ := mem_childSteps later
    · rfl
    · exact ih name step deeper

theorem Walk.lies (walk : Walk rel steps) {p : Str} (inside : step ∈ steps)
  (path : step.arcPath = some p) : ∃ names, p = pathBelow rel names := by
 induction walk generalizing step with
 | leaf inner paths =>
  have visited : p ∈ arcPaths _ := List.mem_filterMap.mpr ⟨step, inside, path⟩
  rcases paths with none_there | one
  · rw [none_there] at visited
    cases visited
  · rw [one] at visited
    exact ⟨[], List.mem_singleton.mp visited⟩
 | directory distinct each ih =>
  rcases List.mem_cons.mp inside with rfl | later
  · exact ⟨[], (Option.some.inj path).symm⟩
  · obtain ⟨name, rfl | deeper⟩ := mem_childSteps later
    · cases path
    · obtain ⟨names, is⟩ := ih name deeper path
      exact ⟨name :: names, is⟩

end Shape

theorem perform_inner {step : Step} (inner : step.inner = true) :
  (perform ar step w).state.devSeen = w.devSeen ∧
   (perform ar step w).state.rootBases = w.rootBases := by
 cases step with
 | enter root | abort err | settle st => cases inner
 | poll root cancelled =>
  cases cancelled with
  | none => exact ⟨rfl, rfl⟩
  | some cause => exact ⟨rfl, rfl⟩
 | skip => exact ⟨rfl, rfl⟩
 | fault err =>
  have quiet := quiet_handleWalkError w ar.opts err
  exact ⟨quiet.devSeen, quiet.rootBases⟩
 | emit arcPath fsPath a st dirFile =>
  rw [perform]
  rcases emitOne_state with quiet | ⟨d, lost, file, -, left⟩
  · exact ⟨quiet.devSeen, quiet.rootBases⟩
  · exact ⟨left.devSeen, left.rootBases⟩

theorem devSeen_run {steps : List Step} (inner : ∀ step ∈ steps, step.inner = true) {w' : TarWriter}
  (ends : (runAll (perform ar) steps w).state = w') : w'.devSeen = w.devSeen := by
 rw [← ends]
 refine runAll_keeps (P := fun v : TarWriter => v.devSeen = w.devSeen) rfl ?_
 intro step inside v same
 rw [(perform_inner (inner step inside)).1, same]

section Linear

theorem run_one (step : Step) (w : TarWriter) :
  runAll (perform ar) [step] w = perform ar step w := runAll_singleton step w

theorem run_skip : runAll (perform ar) [.skip] = fun w => done w.skip :=
 funext fun w => run_one Step.skip w

variable {cancelled : FileName → Option Str}
variable {visit : FileName → TarWriter → Effect TarWriter WalkError} {below : FileName → List Step}
theorem walkChildren_eq {devSeen : Option UInt64}
  (inner : ∀ name, ∀ step ∈ below name, step.inner = true)
  (visits : ∀ name v, v.devSeen = devSeen → visit name v = runAll (perform ar) (below name) v)
  (names : List FileName) (device : w.devSeen = devSeen) :
  walkChildren fsRoot cancelled visit names w =
   runAll (perform ar) (childSteps fsRoot cancelled below names) w := by
 induction names generalizing w with
 | nil => rfl
 | cons name rest ih =>
  have steps : childSteps fsRoot cancelled below (name :: rest) =
    .poll fsRoot (cancelled name) :: (below name ++ childSteps fsRoot cancelled below rest) := rfl
  rw [walkChildren, steps, runAll]
  cases state : cancelled name with
  | some cause => rfl
  | none =>
   have polled : perform ar (.poll fsRoot none) w = done w := rfl
   rw [polled, done_andThen, runAll_append, visits name w device]
   have kept : (runAll (perform ar) (below name) w).state.devSeen = w.devSeen :=
    devSeen_run (inner name) rfl
   rcases (runAll (perform ar) (below name) w).eq_done_or_stop with well | ⟨err, failed⟩
   · rw [well, done_andThen, done_andThen]
     exact ih (kept.trans device)
   · rw [failed, stop_andThen, stop_andThen]

variable {rel fsPath : Str}

theorem walkDirectory_eq {a : Answers} {st : FileInfo} {dirFile : Option Descriptor}
  {names : List FileName} (inner : ∀ name, ∀ step ∈ below name, step.inner = true)
  (visits : ∀ name v, v.devSeen = w.devSeen → visit name v = runAll (perform ar) (below name) v) :
  (emitOne ar rel fsPath a st dirFile w).andThen (walkChildren fsRoot cancelled visit names) =
   runAll (perform ar)
    (.emit rel fsPath a st dirFile :: childSteps fsRoot cancelled below names) w := by
 have kept : (emitOne ar rel fsPath a st dirFile w).state.devSeen = w.devSeen :=
  (@perform_inner ar w (.emit rel fsPath a st dirFile) rfl).1
 rw [runAll, perform]
 rcases (emitOne ar rel fsPath a st dirFile w).eq_done_or_stop with well | ⟨err, failed⟩
 · rw [well, done_andThen, done_andThen]
   exact walkChildren_eq inner visits names kept
 · rw [failed, stop_andThen, stop_andThen]

theorem walkEntry_eq (tree : Tree) : walkEntry ar fsRoot tree rel fsPath w =
   runAll (perform ar) (entrySteps ar.opts w.devSeen fsRoot tree rel fsPath) w := by
 induction tree generalizing rel fsPath w with
 | missing cancelled cause => exact (run_one (.fault (.lstat fsPath cause)) w).symm
 | node a names child ih =>
  rw [walkEntry, entrySteps]
  cases stat : a.lstat with
  | error cause => exact (run_one (.fault (.lstat fsPath cause)) w).symm
  | ok st =>
   dsimp only
   split
   · split
     · rw [runAll, run_skip]
       rfl
     · rw [run_skip]
   · split
     · cases listed : list a names st with
       | error cause =>
        dsimp only
        split
        · rw [runAll, run_skip]
          rfl
        · exact (run_one (.fault (.readdir fsPath cause)) w).symm
       | ok found =>
        obtain ⟨f, found⟩ := found
        apply walkDirectory_eq (fun name => (walk_entrySteps (child name)).inner)
        intro name v device
        rw [ih name, device]
     · exact (run_one (.emit rel fsPath a st none) w).symm

theorem archiveRoot_eq (root : Str) (tree : Tree) (w : TarWriter) : archiveRoot ar root tree w =
   runAll (perform ar) (rootSteps ar.opts w.devSeen root tree) w := by
 cases tree with
 | missing cancelled cause => exact (run_one (.abort (.lstatRoot root cause)) w).symm
 | node a names child =>
  rw [archiveRoot, rootSteps, Tree.answers]
  cases stat : a.lstat with
  | error cause => exact (run_one (.abort (.lstatRoot root cause)) w).symm
  | ok st =>
   dsimp only
   rw [runAll, perform, done_andThen, rootBody]
   split
   · rw [run_skip]
   · split
     · cases listed : list a names st with
       | error cause =>
        dsimp only
        split
        · exact (run_one (.fault (.readdirRoot root cause)) _).symm
        · have last : runAll (perform ar) [.fault (.readdir root cause)] =
            handleWalkError ar.opts (.readdir root cause) :=
           funext fun v => run_one (.fault (.readdir root cause)) v
          rw [runAll, last]
          rfl
       | ok found =>
        obtain ⟨f, found⟩ := found
        apply walkDirectory_eq (fun name => (walk_entrySteps (child name)).inner)
        intro name v device
        rw [walkEntry_eq (child name), device]
     · exact (run_one (.emit (base root) root a st none) _).symm

theorem addRoot_eq (root : Str) (tree : Tree) (w : TarWriter) :
  addRoot ar root tree w = runAll (perform ar)
    (.enter (clean root) :: rootSteps ar.opts w.devSeen (clean root) tree) w := by
 rw [addRoot, runAll, perform]
 cases w.rootBases.lookup (base (clean root)) with
 | some previous => rfl
 | none =>
  dsimp only
  rw [done_andThen]
  exact archiveRoot_eq (clean root) tree _

theorem devSeen_addRoot {root : Str} {tree : Tree} {w' : TarWriter}
  (well : addRoot ar root tree w = done w') :
  w'.devSeen = deviceBehind ar.opts w.devSeen tree := by
 rw [addRoot_eq, runAll] at well
 obtain ⟨entered, enter, rest⟩ := andThen_eq_done.mp well
 have same : entered.devSeen = w.devSeen := by
  rw [perform] at enter
  split at enter
  · exact absurd enter stop_ne_done
  · rw [← done_inj.mp enter]
 unfold rootSteps at rest
 unfold deviceBehind
 cases stat : tree.answers.lstat with
 | error cause =>
  rw [stat] at rest
  exact absurd ((run_one _ _).symm.trans rest) stop_ne_done
 | ok st =>
  rw [stat] at rest
  dsimp only at rest ⊢
  rw [runAll, perform, done_andThen, same] at rest
  exact devSeen_run (walk_rootBody tree).inner (congrArg Effect.state rest)

theorem addRoots_eq (roots : List (Str × Tree)) (w : TarWriter) :
  addRoots ar roots w = runAll (perform ar) (schedule ar.opts w.devSeen roots) w := by
 induction roots generalizing w with
 | nil => rfl
 | cons root rest ih =>
  obtain ⟨root, tree⟩ := root
  have front : addRoot ar root tree w = _ := addRoot_eq root tree w
  rw [schedule, runAll_append, ← front]
  have unrolled : addRoots ar ((root, tree) :: rest) w =
    (addRoot ar root tree w).andThen (addRoots ar rest) := rfl
  rw [unrolled]
  rcases (addRoot ar root tree w).eq_done_or_stop with well | ⟨err, failed⟩
  · have device := devSeen_addRoot well
    rw [well, done_andThen, done_andThen, ih, device]
  · rw [failed, stop_andThen, stop_andThen]

end Linear

section Paths

theorem split_pathBelow (top : Str) (names : List FileName) :
  split slash (pathBelow top names) = split slash top ++ names.map FileName.text := by
 induction names generalizing top with
 | nil => rw [pathBelow, List.map_nil, List.append_nil]
 | cons name rest ih =>
  have one : split slash name.text = [name.text] := split_of_not_mem name.ordinary.single
  rw [pathBelow, ih, split_append_sep_append, one, List.append_assoc]
  rfl

variable {p : Str}

theorem arcPath_rootSteps {root : Str} {tree : Tree}
  (inside : step ∈ rootSteps opts devSeen root tree) (path : step.arcPath = some p) :
  ∃ names, p = pathBelow (base root) names := by
 unfold rootSteps at inside
 split at inside
 · rw [List.mem_singleton.mp inside] at path
   cases path
 · rcases List.mem_cons.mp inside with rfl | body
   · cases path
   · exact (walk_rootBody tree).lies body path

theorem arcPath_schedule {opts : Options} {devSeen : Option UInt64} {roots : List (Str × Tree)}
  (inside : step ∈ schedule opts devSeen roots) (path : step.arcPath = some p) :
  ∃ root ∈ roots, ∃ names, p = pathBelow (base (clean root.1)) names := by
 induction roots generalizing devSeen with
 | nil => cases inside
 | cons root rest ih =>
  obtain ⟨root, tree⟩ := root
  rw [schedule] at inside
  rcases List.mem_append.mp inside with own | later
  · rcases List.mem_cons.mp own with rfl | body
    · cases path
    · obtain ⟨names, is⟩ := arcPath_rootSteps body path
      exact ⟨(root, tree), List.mem_cons_self, names, is⟩
  · obtain ⟨other, listed, names, is⟩ := ih later
    exact ⟨other, List.mem_cons_of_mem _ listed, names, is⟩

end Paths

def Step.Drafts (opts : Options) (step : Step) (st : FileInfo) (d : Entry) : Prop :=
 ∃ arcPath fsPath a dirFile lost file, step = .emit arcPath fsPath a st dirFile ∧
  draft opts arcPath fsPath a st dirFile = .entry d lost file

theorem Step.Drafts.drafted {opts : Options} {step : Step} {st : FileInfo} {d : Entry}
  (drafts : step.Drafts opts st d) : ∃ p, step.arcPath = some p ∧ Drafted p st d := by
 obtain ⟨arcPath, fsPath, a, dirFile, lost, file, rfl, made⟩ := drafts
 exact ⟨arcPath, rfl, drafted_of_draft made⟩

theorem perform_state (step : Step) :
  ((perform ar step w).state.entries = w.entries ∧ (perform ar step w).state.links = w.links) ∨
   ∃ st d, step.Drafts ar.opts st d ∧
    Leaves (groupLinks st d w.links).1 (groupLinks st d w.links).2 w
     (perform ar step w).state := by
 cases step with
 | enter root =>
  rw [perform]
  split
  · exact .inl ⟨rfl, rfl⟩
  · exact .inl ⟨rfl, rfl⟩
 | abort err | settle st | skip => exact .inl ⟨rfl, rfl⟩
 | poll root cancelled =>
  cases cancelled with
  | none => exact .inl ⟨rfl, rfl⟩
  | some cause => exact .inl ⟨rfl, rfl⟩
 | fault err =>
  have quiet := quiet_handleWalkError w ar.opts err
  exact .inl ⟨quiet.entries, quiet.links⟩
 | emit arcPath fsPath a st dirFile =>
  rw [perform]
  rcases emitOne_state with quiet | ⟨d, lost, file, made, left⟩
  · exact .inl ⟨quiet.entries, quiet.links⟩
  · exact .inr ⟨st, d, ⟨arcPath, fsPath, a, dirFile, lost, file, rfl, made⟩, left⟩

end BackImage.Archive.Schedule
