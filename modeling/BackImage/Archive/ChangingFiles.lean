/- source: pkg/archive/writer.go
  digest: An archive of files that change while they are read is completed only if none changes
    size. -/

import BackImage.Archive.Layout
import BackImage.Archive.RestorableNames

namespace BackImage.Archive.ChangingFiles

open Writer EntryStep Layout RestorableNames Schedule
open Go Go.Text Lib.Sequence Lib.Wrap
open Go.Sha256 (sum256)

structure Member where
 start : Nat
 header : Tar.Header
 payload : Bytes

def readMembers (format : Tar.Format) : Nat → Nat → Bytes → Option (List Member)
 | 0, _, _ => none
 | fuel + 1, start, bytes =>
  match format.decode bytes with
  | .eof => if bytes = Tar.trailer then some [] else none
  | .failed _ => none
  | .header h size =>
   let behind := size + h.payload + Tar.padding h.payload
   if bytes.length < behind then none
   else (readMembers format fuel (start + behind) (bytes.drop behind)).map
    (⟨start, h, (bytes.drop size).take h.payload⟩ :: ·)

/-- The entry says of a member where it is, how long and with which digest. -/
structure Describes (opts : Options) (e : Entry) (m : Member) : Prop where
 header : Tar.Kept (headerOf opts e) m.header
 offset : e.tarOffset.toInt = m.start
 size : e.size.toInt = m.payload.length
 digest : e.type = .regular → e.sha256 = hexEncode (sum256 m.payload)

/-- The roots are archived, the archive is complete, and its entries describe its members. -/
def Intact (ar : Archiver) (roots : List (Str × Tree)) : Prop :=
 ∃ added closed members, addRoots ar roots newWriter = done added ∧ close ar added = done closed ∧
  readMembers ar.format (closed.tw.out.length + 1) 0 closed.tw.out = some members ∧
  List.Forall₂ (Describes ar.opts) closed.entries members

def draftStep (opts : Options) : Step → Option (FileInfo × Entry × Except OsError Descriptor)
 | .emit arcPath fsPath a st dirFile =>
  match draft opts arcPath fsPath a st dirFile with
  | .entry d _ file => some (st, d, file)
  | _ => none
 | _ => none

def copied (opts : Options) (links : List (HardlinkKey × Str)) (step : Step) :
  List (FileInfo × Descriptor) :=
 match draftStep opts step with
 | none => []
 | some (st, d, file) =>
  if (groupLinks st d links).1.type = .regular then file.toOption.toList.map (st, ·) else []

def linksAfter (opts : Options) (links : List (HardlinkKey × Str)) (step : Step) :
  List (HardlinkKey × Str) :=
 match draftStep opts step with
 | none => links
 | some (st, d, _) => (groupLinks st d links).2

def copies (opts : Options) : List (HardlinkKey × Str) → List Step → List (FileInfo × Descriptor)
 | _, [] => []
 | links, step :: rest => copied opts links step ++ copies opts (linksAfter opts links step) rest

def Steady (file : FileInfo × Descriptor) : Prop :=
 (file.2.content.length : Int) = file.1.size.toInt

instance (file : FileInfo × Descriptor) : Decidable (Steady file) :=
 inferInstanceAs (Decidable ((_ : Int) = _))

def steadyFile (st : FileInfo) (f : Descriptor) : Descriptor :=
 { f with content := (f.content ++ Tar.zeros st.size.toNatClampNeg).take st.size.toNatClampNeg }

def steadyAnswers (st : FileInfo) (a : Answers) : Answers :=
 { a with opening := a.opening.map (steadyFile st) }

def steadyTree : Tree → Tree
 | .missing cancelled cause => .missing cancelled cause
 | .node a names child =>
  .node (match a.lstat with
   | .ok st => steadyAnswers st a
   | .error _ => a) names fun name => steadyTree (child name)

def steadyRoots (roots : List (Str × Tree)) : List (Str × Tree) :=
 roots.map fun root => (root.1, steadyTree root.2)

theorem steadyFile_of_steady {st : FileInfo} {f : Descriptor} (steady : Steady (st, f)) :
  steadyFile st f = f := by
 have length : st.size.toNatClampNeg = f.content.length := by
  have clamp : st.size.toNatClampNeg = st.size.toInt.toNat := rfl
  unfold Steady at steady
  dsimp only at steady
  omega
 unfold steadyFile
 rw [length, List.take_left]

def steadyStep : Step → Step
 | .emit arcPath fsPath a st dirFile =>
  .emit arcPath fsPath (steadyAnswers st a) st (dirFile.map (steadyFile st))
 | other => other

variable {opts : Options} {a : Answers} {st : FileInfo} {ar : Archiver}

section Steps

theorem steadyTree_cancelled (tree : Tree) :
  (steadyTree tree).answers.cancelled = tree.answers.cancelled := by
 cases tree with
 | missing cancelled cause => rfl
 | node a names child =>
  rw [steadyTree, Tree.answers, Tree.answers]
  split <;> rfl

theorem steadyTree_lstat (tree : Tree) : (steadyTree tree).answers.lstat = tree.answers.lstat := by
 cases tree with
 | missing cancelled cause => rfl
 | node a names child =>
  rw [steadyTree, Tree.answers, Tree.answers]
  split <;> rfl

theorem openVerified_steady :
  openVerified (steadyAnswers st a) st = (openVerified a st).map (steadyFile st) := by
 unfold openVerified steadyAnswers
 dsimp only
 cases a.opening with
 | error e => rfl
 | ok f =>
  dsimp only [Except.map]
  rw [show (steadyFile st f).fstat = f.fstat from rfl,
   show (steadyFile st f).settling = f.settling from rfl]
  cases f.fstat with
  | error e => rfl
  | ok fi =>
   dsimp only
   split
   · cases f.settling with
     | none => rfl
     | some e => rfl
   · rfl

theorem list_steady (names : Names) : list (steadyAnswers st a) names st =
   (list a names st).map fun listed => (steadyFile st listed.1, listed.2) := by
 unfold list
 rw [openVerified_steady, show (steadyAnswers st a).readdir = a.readdir from rfl,
  show (steadyAnswers st a).openRoot = a.openRoot from rfl]
 cases openVerified a st with
 | error e => rfl
 | ok f =>
  dsimp only [Except.map]
  cases a.readdir with
  | some e => rfl
  | none =>
   dsimp only
   cases a.openRoot with
   | error e => rfl
   | ok root =>
    cases root with
    | ok fi =>
     dsimp only
     split <;> rfl
    | error e =>
     dsimp only
     split <;> rfl

theorem childSteps_steady {fsRoot : Str} {cancelled cancelled' : FileName → Option Str}
  {below below' : FileName → List Step} (names : List FileName)
  (same : ∀ name, cancelled' name = cancelled name)
  (each : ∀ name, below' name = (below name).map steadyStep) :
  childSteps fsRoot cancelled' below' names =
   (childSteps fsRoot cancelled below names).map steadyStep := by
 unfold childSteps
 rw [List.map_flatMap]
 apply List.flatMap_congr
 intro name _
 rw [same, each]
 rfl

variable {devSeen : Option UInt64}

theorem entrySteps_steady {fsRoot : Str} (tree : Tree) {rel fsPath : Str} :
  entrySteps opts devSeen fsRoot (steadyTree tree) rel fsPath =
   (entrySteps opts devSeen fsRoot tree rel fsPath).map steadyStep := by
 induction tree generalizing rel fsPath with
 | missing cancelled cause => rfl
 | node a names child ih =>
  rw [steadyTree, entrySteps, entrySteps]
  cases found : a.lstat with
  | error cause =>
   dsimp only
   rw [found]
   rfl
  | ok st =>
   dsimp only
   rw [show (steadyAnswers st a).lstat = .ok st from found]
   dsimp only
   rw [openVerified_steady, list_steady]
   split
   · split
     · cases openVerified a st with
       | error cause => rfl
       | ok f => rfl
     · rfl
   · split
     · cases list a names st with
       | error cause =>
        dsimp only [Except.map]
        split <;> rfl
       | ok listed =>
        dsimp only [Except.map]
        rw [List.map_cons, childSteps_steady listed.2
         (fun name => steadyTree_cancelled (child name)) fun name => ih name]
        rfl
     · rfl

theorem rootBody_steady {root : Str} (tree : Tree) (found : tree.answers.lstat = .ok st) :
  rootBody opts devSeen root st (steadyTree tree) =
   (rootBody opts devSeen root st tree).map steadyStep := by
 cases tree with
 | missing cancelled cause => rfl
 | node a names child =>
  rw [steadyTree, show a.lstat = .ok st from found, rootBody, rootBody]
  dsimp only
  rw [list_steady]
  split
  · rfl
  · split
    · cases list a names st with
      | error cause =>
       dsimp only [Except.map]
       split <;> rfl
      | ok listed =>
       dsimp only [Except.map]
       rw [List.map_cons, childSteps_steady listed.2
        (fun name => steadyTree_cancelled (child name)) fun name => entrySteps_steady (child name)]
       rfl
    · rfl

theorem rootSteps_steady {root : Str} (tree : Tree) :
  rootSteps opts devSeen root (steadyTree tree) =
   (rootSteps opts devSeen root tree).map steadyStep := by
 unfold rootSteps
 rw [steadyTree_lstat]
 cases found : tree.answers.lstat with
 | error cause => rfl
 | ok st =>
  dsimp only
  rw [rootBody_steady tree found]
  rfl

theorem schedule_steady (devSeen : Option UInt64) (roots : List (Str × Tree)) :
  schedule opts devSeen (steadyRoots roots) = (schedule opts devSeen roots).map steadyStep := by
 induction roots generalizing devSeen with
 | nil => rfl
 | cons root rest ih =>
  have device : deviceBehind opts devSeen (steadyTree root.2) =
    deviceBehind opts devSeen root.2 := by
   unfold deviceBehind
   rw [steadyTree_lstat]
  have front : steadyRoots (root :: rest) = (root.1, steadyTree root.2) :: steadyRoots rest := rfl
  rw [front, schedule, schedule, rootSteps_steady, device, ih, List.map_append, List.map_cons]
  rfl

end Steps

section Runs

variable {arcPath fsPath : Str} {dirFile : Option Descriptor} {step : Step} {steps : List Step}
 {w w' : TarWriter}

variable {d : Entry} {file : Except OsError Descriptor}

theorem size_of_draft {lost : Option WalkError}
  (made : draft opts arcPath fsPath a st dirFile = .entry d lost file)
  (regular : d.type = .regular) :
  d.size = st.size := by
 obtain ⟨type, size, target, shape, described⟩ := described_of_draft made
 have kind : type = .regular := described.type.symm.trans regular
 rw [described.size]
 rcases classify_object shape with ⟨symlink, -⟩ | ⟨-, found, -⟩ | ⟨⟨-, -, other⟩, -⟩
 · rw [kind] at symlink
   cases symlink
 · exact found
 · exact absurd kind other

theorem readMeta_steady (numeric preserve : Bool) (f : Option Descriptor) (e : Entry) :
  readMeta numeric preserve (steadyAnswers st a) (f.map (steadyFile st)) st e =
   readMeta numeric preserve a f st e := by
 cases f with
 | none => rfl
 | some f => rfl

theorem draft_steady :
  draft opts arcPath fsPath (steadyAnswers st a) st (dirFile.map (steadyFile st)) =
   match draft opts arcPath fsPath a st dirFile with
   | .entry d lost file => .entry d lost (file.map (steadyFile st))
   | other => other := by
 unfold draft
 rw [show classify fsPath (steadyAnswers st a) st = classify fsPath a st from rfl]
 split
 · rfl
 · split
   · rfl
   · rfl
   · rename_i type size target shape
     dsimp only
     have file : (if type = .regular then openVerified (steadyAnswers st a) st
       else .error noDescriptor) =
       (if type = .regular then openVerified a st else .error noDescriptor).map
        (steadyFile st) := by
      split
      · exact openVerified_steady
      · rfl
     rw [file]
     have handle : ∀ opened : Except OsError Descriptor,
       (if type = .dir then dirFile.map (steadyFile st)
        else (opened.map (steadyFile st)).toOption) =
       (if type = .dir then dirFile else opened.toOption).map (steadyFile st) := by
      intro opened
      split
      · rfl
      · cases opened <;> rfl
     rw [handle, readMeta_steady]
     split
     · rfl
     · split <;> rfl

theorem draftStep_emit {lost : Option WalkError}
  (made : draft opts arcPath fsPath a st dirFile = .entry d lost file) :
  draftStep opts (.emit arcPath fsPath a st dirFile) = some (st, d, file) := by
 simp only [draftStep, made]

theorem mem_copied {links : List (HardlinkKey × Str)} {c : FileInfo × Descriptor} :
  c ∈ copied opts links step ↔ ∃ d, draftStep opts step = some (c.1, d, .ok c.2) ∧
   (groupLinks c.1 d links).1.type = .regular := by
 unfold copied
 cases drafted : draftStep opts step with
 | none => simp
 | some found =>
  obtain ⟨st, d, file⟩ := found
  obtain ⟨st', f⟩ := c
  dsimp only
  cases file with
  | error cause => simp [Except.toOption]
  | ok g =>
   split
   · rename_i regular
     simp only [Except.toOption, Option.toList_some, List.map_cons, List.map_nil,
      List.mem_singleton, Prod.mk.injEq, Option.some.injEq, Except.ok.injEq]
     constructor
     · rintro ⟨rfl, rfl⟩
       exact ⟨d, ⟨rfl, rfl, rfl⟩, regular⟩
     · rintro ⟨d', ⟨rfl, rfl, rfl⟩, -⟩
       exact ⟨rfl, rfl⟩
   · rename_i other
     refine iff_of_false List.not_mem_nil ?_
     rintro ⟨d', same, regular⟩
     simp only [Option.some.injEq, Prod.mk.injEq] at same
     obtain ⟨rfl, rfl, -⟩ := same
     exact other regular

theorem writeEntry_steady
  (steady : (groupLinks st d w.links).1.type = .regular → ∀ f, file = .ok f → Steady (st, f)) :
  writeEntry ar d fsPath st (file.map (steadyFile st)) w = writeEntry ar d fsPath st file w := by
 unfold writeEntry
 dsimp only
 split
 · rename_i regular
   cases file with
   | error cause => rfl
   | ok f =>
    dsimp only [Except.map]
    rw [steadyFile_of_steady (steady regular f rfl)]
 · rfl

theorem perform_steady (steady : ∀ c ∈ copied ar.opts w.links step, Steady c) :
  perform ar (steadyStep step) w = perform ar step w := by
 cases step with
 | enter root | abort err | settle st | poll root cancelled | skip | fault err => rfl
 | emit arcPath fsPath a st dirFile =>
  rw [steadyStep, perform, perform]
  unfold emitOne
  rw [draft_steady]
  split
  · rename_i made
    split at made
    · cases made
    · rw [made]
  · rename_i err made
    split at made
    · cases made
    · rw [made]
  · rename_i d lost file made
    split at made
    · rename_i d' lost' file' drafted
      cases made
      rw [drafted]
      apply writeEntry_steady
      intro regular f is
      rw [(quiet_lose w _).links] at regular
      apply steady
      exact mem_copied.mpr ⟨d, by rw [draftStep_emit drafted, is], regular⟩
    · rename_i other
      exact absurd made (other d lost file)

theorem links_perform (well : perform ar step w = done w') :
  w'.links = linksAfter ar.opts w.links step := by
 unfold linksAfter
 rcases perform_eq_done well with
  ⟨none_drafted, still⟩ | ⟨p, st, d, e, content, made, -, -, -, -, -⟩
 · have none_there : draftStep ar.opts step = none := by
    cases step with
    | enter root | abort err | settle st | poll root cancelled | skip | fault err => rfl
    | emit arcPath fsPath a st dirFile =>
     unfold draftOf at none_drafted
     unfold draftStep
     dsimp only at none_drafted ⊢
     cases drafted : draft ar.opts arcPath fsPath a st dirFile with
     | entry d lost file =>
      rw [drafted] at none_drafted
      cases none_drafted
     | leftOut => rfl
     | fault err => rfl
   rw [none_there]
   exact still.links
 · cases step with
   | enter root | abort err | settle st | poll root cancelled | skip | fault err => cases made
   | emit arcPath fsPath a st dirFile =>
    rw [perform] at well
    rcases emitOne_eq_done well with
     ⟨none_drafted, -⟩ | ⟨d, lost, file, e, content, made', -, -, links⟩
    · unfold draftOf at made
      dsimp only at made
      split at made
      · rename_i d' lost file drafted
        exact absurd drafted (none_drafted d' lost file)
      · cases made
    · rw [draftStep_emit made']
      exact links

theorem run_steady (steady : ∀ c ∈ copies ar.opts w.links steps, Steady c) :
  runAll (perform ar) (steps.map steadyStep) w = runAll (perform ar) steps w := by
 induction steps generalizing w with
 | nil => rfl
 | cons step rest ih =>
  rw [List.map_cons, runAll, runAll,
   perform_steady fun c inside => steady c (List.mem_append_left _ inside)]
  rcases (perform ar step w).eq_done_or_stop with well | ⟨err, failed⟩
  · rw [well, done_andThen, done_andThen]
    apply ih
    intro c inside
    rw [links_perform well] at inside
    exact steady c (List.mem_append_right _ inside)
  · rw [failed, stop_andThen, stop_andThen]

theorem left_of_store {f : Descriptor} (regular : d.type = .regular)
  (well : store ar d fsPath (some f) w = done w') :
  f.content.length + w'.tw.left = d.size.toNatClampNeg := by
 have payload : (headerOf ar.opts d).payload = d.size.toNatClampNeg := by
  simp [headerOf, Tar.Header.payload, regular, typeflag]
 unfold store at well
 dsimp only at well
 obtain ⟨sent, header, rest⟩ := andThen_eq_done.mp well
 obtain ⟨tw, headed, rfl⟩ := within_eq_done.mp header
 obtain ⟨-, blocks, -, rfl⟩ := Tar.writeHeader_eq_done headed
 rw [if_pos regular] at rest
 obtain ⟨after, wrote, last⟩ := andThen_eq_done.mp rest
 obtain ⟨tw, written, rfl⟩ := within_eq_done.mp wrote
 obtain ⟨short, rfl⟩ := Tar.write_eq_done written
 split at last
 · exact absurd last stop_ne_done
 · obtain ⟨-, same, -⟩ := settle_eq_done last
   change f.content.length ≤ (headerOf ar.opts d).payload at short
   have left : w'.tw.left = (headerOf ar.opts d).payload - f.content.length := by rw [same]; rfl
   omega

theorem groupLinks_regular {links : List (HardlinkKey × Str)}
  (regular : (groupLinks st d links).1.type = .regular) : (groupLinks st d links).1 = d := by
 rcases groupLinks_cases st d links with alone | ⟨key, -, first⟩ | ⟨key, target, -, -, link⟩
 · rw [alone]
 · rw [first]
 · rw [link] at regular
   cases regular

theorem steady_of_perform (well : perform ar step w = done w') (complete : w'.tw.left = 0) :
  ∀ c ∈ copied ar.opts w.links step, Steady c := by
 rintro ⟨st, f⟩ inside
 obtain ⟨d, drafted, regular⟩ := mem_copied.mp inside
 cases step with
 | enter root | abort err | settle st | poll root cancelled | skip | fault err => cases drafted
 | emit arcPath fsPath a st' dirFile =>
  rw [perform] at well
  unfold emitOne at well
  unfold draftStep at drafted
  dsimp only at drafted
  split at drafted
  · rename_i d' lost file made
    cases drafted
    rw [made] at well
    dsimp only at well
    unfold writeEntry at well
    dsimp only at well
    have links := (quiet_lose w lost).links
    rw [links, if_pos regular] at well
    have due := left_of_store regular well
    rw [groupLinks_regular regular] at due regular
    rw [complete, size_of_draft made regular] at due
    have clamp : st.size.toNatClampNeg = st.size.toInt.toNat := rfl
    have sized := Int64.le_iff_toInt_le.mp st.sized
    rw [Int64.toInt_zero] at sized
    unfold Steady
    dsimp only
    omega
  · cases drafted

theorem left_before_run (well : runAll (perform ar) steps w = done w') (complete : w'.tw.left = 0) :
  w.tw.left = 0 := by
 induction steps generalizing w with
 | nil =>
  rw [done_inj.mp well]
  exact complete
 | cons step rest ih =>
  obtain ⟨u, called, later⟩ := andThen_eq_done.mp well
  rcases perform_eq_done called with ⟨-, still⟩ | ⟨_, _, _, _, _, -, -, -, -, stored, -⟩
  · rw [← still.tw]
    exact ih later
  · exact stored.complete

theorem steady_of_run (well : runAll (perform ar) steps w = done w') (complete : w'.tw.left = 0) :
  ∀ c ∈ copies ar.opts w.links steps, Steady c := by
 induction steps generalizing w with
 | nil => exact fun c inside => absurd inside List.not_mem_nil
 | cons step rest ih =>
  obtain ⟨u, called, later⟩ := andThen_eq_done.mp well
  intro c inside
  rcases List.mem_append.mp inside with here | behind
  · exact steady_of_perform called (left_before_run later complete) c here
  · rw [← links_perform called] at behind
    exact ih later c behind

theorem addRoots_steady {roots : List (Str × Tree)}
  (steady : ∀ c ∈ copies ar.opts [] (schedule ar.opts none roots), Steady c) :
  addRoots ar (steadyRoots roots) newWriter = addRoots ar roots newWriter := by
 rw [addRoots_eq, addRoots_eq]
 change runAll (perform ar) (schedule ar.opts none (steadyRoots roots)) newWriter =
  runAll (perform ar) (schedule ar.opts none roots) newWriter
 rw [schedule_steady]
 exact run_steady steady

end Runs

section Reading

variable {records : List Record} {t : Tar.Output}

/-- A record as it is found in the archive; its offset is cut to 64 bits. -/
structure Stands (opts : Options) (r : Record) (m : Member) : Prop where
 header : Tar.Kept (headerOf opts r.1) m.header
 offset : r.1.tarOffset = Int64.ofNat m.start
 payload : m.payload = r.2
 length : r.2.length = (headerOf opts r.1).payload

theorem payload_kept {written read : Tar.Header} (kept : Tar.Kept written read) :
  read.payload = written.payload := by
 unfold Tar.Header.payload
 rw [kept.typeflag, kept.size]

theorem readMembers_record {h read : Tar.Header} {blocks content rest : Bytes} {format : Tar.Format}
  (decoded : ∀ rest, format.decode (blocks ++ rest) = .header read blocks.length)
  (kept : Tar.Kept h read) (full : content.length = h.payload) (fuel start : Nat) :
  readMembers format (fuel + 1) start
    (blocks ++ (content ++ (Tar.zeros (Tar.padding h.payload) ++ rest))) =
   (readMembers format fuel (start + (blocks.length + h.payload + Tar.padding h.payload)) rest).map
     (⟨start, read, content⟩ :: ·) := by
 have zeros : (Tar.zeros (Tar.padding h.payload)).length = Tar.padding h.payload :=
  List.length_replicate
 rw [readMembers, decoded]
 dsimp only
 rw [payload_kept kept, if_neg (by simp only [List.length_append, zeros]; omega)]
 have behind : (blocks ++ (content ++ (Tar.zeros (Tar.padding h.payload) ++ rest))).drop
   (blocks.length + h.payload + Tar.padding h.payload) = rest := by
  have regroup : blocks ++ (content ++ (Tar.zeros (Tar.padding h.payload) ++ rest)) =
    (blocks ++ content ++ Tar.zeros (Tar.padding h.payload)) ++ rest := by
   simp only [List.append_assoc]
  rw [regroup]
  apply List.drop_left'
  simp only [List.length_append, zeros]
  omega
 rw [behind, List.drop_left, ← full, List.take_left]

theorem readMembers_laid (faithful : ar.format.Faithful) (laid : Laid ar records t)
  (complete : t.left = 0) :
  ∃ members, List.Forall₂ (Stands ar.opts) records members ∧
   ((∀ m ∈ members, (m.start : Int) < bound) ↔
    (headerStart ar (records.map Prod.fst).dropLast : Int) < bound) ∧
   ∀ fuel rest, readMembers ar.format (fuel + records.length) 0
   (t.out ++ (Tar.zeros t.pad ++ rest)) =
    (readMembers ar.format fuel (t.out.length + t.pad) rest).map (members ++ ·) := by
 induction laid with
 | nil =>
  refine ⟨[], .nil, iff_of_true (fun m inside => absurd inside List.not_mem_nil)
   headerStart_nil_lt, ?_⟩
  intro fuel rest
  simp [Tar.zeros]
 | @snoc records t e content blocks before whole offset fits encoded digest bare ih =>
  have full : content.length = (headerOf ar.opts e).payload := by
   change (headerOf ar.opts e).payload - content.length = 0 at complete
   omega
  have between := between_laid faithful before whole
  obtain ⟨members, stand, small, reads⟩ := ih whole
  obtain ⟨read, kept, decoded⟩ := faithful.reads encoded
  have start : e.tarOffset = Int64.ofNat (t.out.length + t.pad) :=
   offset.trans (nextHeader_ofNat between.small between.whole)
  refine ⟨members ++ [⟨t.out.length + t.pad, read, content⟩],
   List.rel_append stand (.cons ⟨kept, start, rfl, full⟩ .nil), ?_, ?_⟩
  · have shorter := headerStart_dropLast_le ar (records.map Prod.fst)
    rw [List.map_append, List.map_singleton, List.dropLast_concat, ← between.position]
    rw [← between.position] at shorter
    constructor
    · intro all
      exact all ⟨t.out.length + t.pad, read, content⟩
       (List.mem_append_right _ List.mem_cons_self)
    · intro last m inside
      rcases List.mem_append.mp inside with earlier | here
      · exact small.mpr (by omega) m earlier
      · rw [List.mem_singleton.mp here]
        exact last
  · intro fuel rest
    have stream : t.out ++ Tar.zeros t.pad ++ blocks ++ content ++
       (Tar.zeros (Tar.padding (headerOf ar.opts e).payload) ++ rest) =
      t.out ++ (Tar.zeros t.pad ++ (blocks ++ (content ++
       (Tar.zeros (Tar.padding (headerOf ar.opts e).payload) ++ rest)))) := by
     simp only [List.append_assoc]
    have turns : fuel + (records ++ [(e, content)]).length = fuel + 1 + records.length := by
     rw [List.length_append, List.length_singleton]
     omega
    have position : (t.out ++ Tar.zeros t.pad ++ blocks ++ content).length +
       Tar.padding (headerOf ar.opts e).payload =
      t.out.length + t.pad + (blocks.length + (headerOf ar.opts e).payload +
       Tar.padding (headerOf ar.opts e).payload) := by
     simp only [List.length_append, Tar.zeros, List.length_replicate]
     omega
    rw [stream, turns, reads, readMembers_record decoded kept full, position]
    cases readMembers ar.format fuel _ rest with
    | none => rfl
    | some more => simp

theorem size_of_recorded {d : Entry} {opts : Options} {r : Record} (recorded : Recorded d r.1)
  (length : r.2.length = (headerOf opts r.1).payload) : r.1.size.toInt = r.2.length := by
 by_cases regular : r.1.type = .regular
 · have payload : (headerOf opts r.1).payload = r.1.size.toNatClampNeg := by
    simp [headerOf, Tar.Header.payload, regular, typeflag]
   have clamp : r.1.size.toNatClampNeg = r.1.size.toInt.toNat := rfl
   have sized := Int64.le_iff_toInt_le.mp recorded.size
   rw [Int64.toInt_zero] at sized
   omega
 · rw [length, payload_regular opts regular, recorded.bare regular]
   rfl

end Reading

section Intact

variable {roots : List (Str × Tree)} {added closed : TarWriter}

theorem offset_exact_iff (start : Nat) : (Int64.ofNat start).toInt = start ↔
  (start : Int) < bound := by
 constructor
 · intro same
   have high := (toInt_fits (Int64.ofNat start)).2
   omega
 · exact toInt_ofNat_of_lt

theorem describes_iff {steps : List Step} {records : List Record} {w : TarWriter}
  {members : List Member} (archived : Archived ar steps records w)
  (stand : List.Forall₂ (Stands ar.opts) records members) :
  List.Forall₂ (Describes ar.opts) w.entries members ↔ ∀ m ∈ members, (m.start : Int) < bound := by
 rw [archived.entries, List.forall₂_map_left_iff]
 constructor
 · intro described m inside
   have both : List.Forall₂ (fun (_ : Record) (m : Member) => (m.start : Int) < bound)
     records members := by
    refine List.Forall₂.mp ?_ stand described
    intro r m stands describes
    have exactly := describes.offset
    rw [stands.offset] at exactly
    exact (offset_exact_iff m.start).mp exactly
   obtain ⟨-, -, small⟩ := exists_left_of_forall₂ both inside
   exact small
 · intro small
   refine (forall₂_mem stand).imp ?_
   rintro r m ⟨inRecords, inMembers, stands⟩
   obtain ⟨d, -, recorded⟩ := exists_left_of_forall₂ archived.recorded inRecords
   refine ⟨stands.header, ?_, ?_, ?_⟩
   · rw [stands.offset]
     exact (offset_exact_iff m.start).mpr (small m inMembers)
   · rw [stands.payload]
     exact size_of_recorded recorded stands.length
   · rw [stands.payload]
     exact digest_laid archived.laid r inRecords

theorem read_closed (faithful : ar.format.Faithful)
  (adds : addRoots ar roots newWriter = done added) (closes : close ar added = done closed) :
  ∃ members, readMembers ar.format (closed.tw.out.length + 1) 0 closed.tw.out = some members ∧
   (List.Forall₂ (Describes ar.opts) closed.entries members ↔
    (headerStart ar added.entries.dropLast : Int) < bound) := by
 obtain ⟨records, archived⟩ := archived_addRoots adds
 obtain ⟨tw, ended, rfl⟩ := within_eq_done.mp closes
 obtain ⟨complete, out⟩ := Tar.close_eq_done ended
 obtain ⟨members, stand, small, reads⟩ := readMembers_laid faithful archived.laid complete
 refine ⟨members, ?_, ?_⟩
 · have short := length_laid faithful archived.laid
   obtain ⟨fuel, turns⟩ : ∃ fuel, tw.out.length + 1 = fuel + 1 + records.length := by
    refine ⟨tw.out.length - records.length, ?_⟩
    rw [out]
    simp only [List.length_append]
    omega
   change readMembers ar.format (tw.out.length + 1) 0 tw.out = some members
   rw [turns, out, List.append_assoc, reads, readMembers, faithful.ends]
   simp
 · change List.Forall₂ (Describes ar.opts) added.entries members ↔ _
   rw [describes_iff archived stand, small, archived.entries]

/-- Where the trees with files of steady size are archived, the archive of the given trees is intact
exactly when every file copied kept its size and the last header starts at a position that fits. -/
theorem intact_iff_steady (ar : Archiver) (faithful : ar.format.Faithful)
  (roots : List (Str × Tree))
  {calm calmClosed : TarWriter} (adds : addRoots ar (steadyRoots roots) newWriter = done calm)
  (closes : close ar calm = done calmClosed) : Intact ar roots ↔
   (∀ c ∈ copies ar.opts [] (schedule ar.opts none roots), Steady c) ∧
    (headerStart ar calm.entries.dropLast : Int) < bound := by
 constructor
 · rintro ⟨added, closed, members, added_ok, closed_ok, read, described⟩
   obtain ⟨tw, ended, -⟩ := within_eq_done.mp closed_ok
   have complete := (Tar.close_eq_done ended).1
   have ran := added_ok
   rw [addRoots_eq] at ran
   have steady : ∀ c ∈ copies ar.opts [] (schedule ar.opts none roots), Steady c :=
    steady_of_run ran complete
   refine ⟨steady, ?_⟩
   rw [addRoots_steady steady, added_ok] at adds
   obtain ⟨members', read', iff⟩ := read_closed faithful added_ok closed_ok
   have same : members' = members := Option.some.inj (read'.symm.trans read)
   rw [same] at iff
   rw [← done_inj.mp adds]
   exact iff.mp described
 · rintro ⟨steady, fits⟩
   rw [addRoots_steady steady] at adds
   obtain ⟨members, read, iff⟩ := read_closed faithful adds closes
   exact ⟨calm, calmClosed, members, adds, closes, read, iff.mpr fits⟩

end Intact

def degradedOptions : Options := { strictOptions with strict := false }

def logInfo : FileInfo := ⟨0o644, 3, by decide, 1, 1, 1, 5, 9, 1, 0, 0, (0, 0)⟩

def logFile (content : Bytes) : Tree :=
 .node {
  cancelled := none
  lstat := .ok logInfo
  readlink := .error ⟨false, lit "invalid argument"⟩
  opening := .ok ⟨.ok logInfo, none, content, none, .ok []⟩
  readdir := some ⟨false, lit "not a directory"⟩
  openRoot := .error ⟨false, lit "not a directory"⟩
  xattrs := .ok []
  owner := (lit "root", lit "root") } ⟨[], List.nodup_nil⟩ fun _ => nothing

def logHeaders : List Tar.Header :=
 [⟨.reg, lit "a", [], 3, 0o644, 0, 0, lit "root", lit "root", 1, none, none, 0, 0, []⟩,
  ⟨.reg, lit "b", [], 3, 0o644, 0, 0, lit "root", lit "root", 1, none, none, 0, 0, []⟩]

def logArchiver : Archiver := ⟨degradedOptions, Tar.tableFormat logHeaders, fun _ _ => none⟩

def logRoots (content : Bytes) : List (Str × Tree) :=
 [(lit "/a", logFile content), (lit "/b", logFile (lit "xyz"))]

/-- A log that grew stops its own copy; a log that shrank stops the header behind it, or the trailer
if it is the last. -/
theorem changed_log_stops_backup : degradedOptions.strict = false ∧
  (addRoots logArchiver (logRoots (lit "abcd")) newWriter).error =
   some (.copyWrite (lit "/a") .tooLong) ∧
  (addRoots logArchiver (logRoots (lit "ab")) newWriter).error =
   some (.header (lit "b") (.missed 1)) ∧
  (addRoots logArchiver [(lit "/a", logFile (lit "ab"))] newWriter).error = none ∧
  (close logArchiver
   (addRoots logArchiver [(lit "/a", logFile (lit "ab"))] newWriter).state).error =
   some (.trailer (.missed 1)) ∧
  (addRoots logArchiver (logRoots (lit "abc")) newWriter).error = none ∧
  (close logArchiver (addRoots logArchiver (logRoots (lit "abc")) newWriter).state).error =
  none := by
 refine ⟨rfl, ?_, ?_, ?_, ?_, ?_, ?_⟩
 · decide +kernel
 · decide +kernel
 · decide +kernel
 · decide +kernel
 · decide +kernel
 · decide +kernel

theorem unchanged_logs_intact : Intact logArchiver (logRoots (lit "abc")) := by
 let added := addRoots logArchiver (steadyRoots (logRoots (lit "abc"))) newWriter
 have adds : added = done added.state := Effect.eq_done (by decide +kernel)
 have closes : close logArchiver added.state = done (close logArchiver added.state).state :=
  Effect.eq_done (by decide +kernel)
 refine (intact_iff_steady logArchiver (Tar.tableFormat_faithful logHeaders) _ adds closes).mpr ?_
 decide +kernel

end BackImage.Archive.ChangingFiles
