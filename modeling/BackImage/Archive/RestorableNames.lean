/- source: pkg/archive/writer.go, pkg/archive/entry.go,
     pkg/archive/selection.go, pkg/archive/extract_unix.go
  digest: The names an archive holds, and which of them an extraction accepts. -/

import BackImage.Archive.Extract
import BackImage.Archive.Schedule
import BackImage.Lib.Sequence

namespace BackImage.Archive.RestorableNames

open Writer EntryStep Extract Schedule Go Go.Path
open Go.Text Lib.Sequence

/-- The part of `Validate` that is not about the path. -/
structure WellMade (e : Entry) : Prop where
 size : e.type ≠ .regular → e.size = 0
 target : e.type = .symlink ∨ e.type = .hardlink → e.linkTarget ≠ []
 keys : ∀ x ∈ e.xattrs, x.1 ≠ []

def Linked (w : TarWriter) : Prop := ∀ x ∈ w.links, x.2 ≠ []

section Entries

variable {ar : Archiver} {st : FileInfo} {d e : Entry} {p : Str} {links : List (HardlinkKey × Str)}

theorem wellMade_finished (drafted : Drafted p st d) (linked : ∀ x ∈ links, x.2 ≠ [])
  (finished : Finished (groupLinks st d links).1 e) : e.path = p ∧ WellMade e := by
 have plain : Finished d e → e.path = p ∧ WellMade e := by
  intro same
  refine ⟨same.path.trans drafted.path, ?_, ?_, ?_⟩
  · intro other
    rw [same.type] at other
    rcases same.size with found | zero
    · rw [found, drafted.bare other]
    · exact zero
  · rw [same.type, same.linkTarget]
    rintro (symlink | hardlink)
    · exact drafted.target symlink
    · exact absurd hardlink drafted.notLink
  · rw [same.xattrs]
    exact drafted.keys
 rcases groupLinks_cases st d links with alone | ⟨key, -, first⟩ | ⟨key, target, -, seen, link⟩
 · rw [alone] at finished
   exact plain finished
 · rw [first] at finished
   exact plain finished
 · rw [link] at finished
   refine ⟨finished.path.trans drafted.path, ?_, ?_, ?_⟩
   · intro _
     rcases finished.size with zero | zero
     · exact zero
     · exact zero
   · intro _
     rw [finished.linkTarget]
     exact linked (key, target) seen
   · rw [finished.xattrs]
     exact drafted.keys

theorem linked_groupLinks (drafted : Drafted p st d) (filled : p ≠ [])
  (linked : ∀ x ∈ links, x.2 ≠ []) : ∀ x ∈ (groupLinks st d links).2, x.2 ≠ [] := by
 rcases groupLinks_cases st d links with alone | ⟨key, -, first⟩ | ⟨key, target, -, -, link⟩
 · rw [alone]
   exact linked
 · rw [first]
   intro x inside
   rcases List.mem_cons.mp inside with rfl | earlier
   · rw [drafted.path]
     exact filled
   · exact linked x earlier
 · rw [link]
   exact linked

end Entries

structure Added (good : Entry → Prop) (w w' : TarWriter) : Prop where
 entries : ∃ added, w'.entries = w.entries ++ added ∧ ∀ e ∈ added, good e
 linked : Linked w'

section Steps

variable {ar : Archiver} {w v : TarWriter} {steps : List Step}

theorem added_run {P : Str → Prop} (linked : Linked w) (filled : ∀ p, P p → p ≠ [])
  (here : ∀ step ∈ steps, ∀ p, step.arcPath = some p → P p) :
  Added (fun e => P e.path ∧ WellMade e) w (runAll (perform ar) steps w).state := by
 refine runAll_keeps (P := Added (fun e => P e.path ∧ WellMade e) w)
  ⟨⟨[], by simp, by simp⟩, linked⟩ ?_
 rintro step inside v ⟨⟨added, sofar, good⟩, linked⟩
 rcases @perform_state ar v step with ⟨entries, links⟩ | ⟨st, d, drafts, left⟩
 · refine ⟨⟨added, entries.trans sofar, good⟩, ?_⟩
   rw [Linked, links]
   exact linked
 · obtain ⟨p, path, drafted⟩ := drafts.drafted
   have place := here step inside p path
   refine ⟨?_, ?_⟩
   · rcases left.entries with none_added | ⟨e, finished, one⟩
     · exact ⟨added, none_added.trans sofar, good⟩
     · obtain ⟨at_, made⟩ := wellMade_finished drafted linked finished
       refine ⟨added ++ [e], by rw [one, sofar, List.append_assoc], ?_⟩
       intro x member
       rcases List.mem_append.mp member with earlier | last
       · exact good x earlier
       · rw [List.mem_singleton.mp last]
         exact ⟨at_ ▸ place, made⟩
   · rw [Linked, left.links]
     exact linked_groupLinks drafted (filled p place) linked

end Steps

section Names

variable {p q : Str} {segments : List Str}

theorem dotDot_mem_split (up : p = lit ".." ∨ hasPrefix p (lit "../") = true ∨
   contains p (lit "/../") = true ∨
   hasSuffix p (lit "/..") = true) : dotDot ∈ split slash p := by
 have single : split slash dotDot = [dotDot] := split_of_not_mem (by decide)
 rcases up with whole | front | middle | back
 · rw [whole]
   decide
 · obtain ⟨rest, rfl⟩ := List.isPrefixOf_iff_prefix.mp front
   have cut : lit "../" ++ rest = dotDot ++ slash :: rest := rfl
   rw [cut, split_append_sep_append, single]
   exact List.mem_append_left _ List.mem_cons_self
 · obtain ⟨tail, isTail, starts⟩ := List.any_eq_true.mp middle
   obtain ⟨before, rfl⟩ := (List.mem_tails _ _).mp isTail
   obtain ⟨rest, rfl⟩ := List.isPrefixOf_iff_prefix.mp starts
   have cut : before ++ (lit "/../" ++ rest) = before ++ slash :: (dotDot ++ slash :: rest) := rfl
   rw [cut, split_append_sep_append, split_append_sep_append, single]
   exact List.mem_append_right _ (List.mem_append_left _ List.mem_cons_self)
 · obtain ⟨before, rfl⟩ := List.isSuffixOf_iff_suffix.mp back
   have cut : before ++ lit "/.." = before ++ slash :: dotDot := rfl
   rw [cut, split_append_sep_append, single]
   exact List.mem_append_right _ List.mem_cons_self

theorem nil_head_split (rooted : hasPrefix p (lit "/") = true) :
  (split slash p).head? = some [] := by
 obtain ⟨rest, rfl⟩ := List.isPrefixOf_iff_prefix.mp rooted
 have cut : lit "/" ++ rest = slash :: rest := rfl
 rw [cut, split_sep_cons]
 rfl

theorem safePath_ordinary (ordinary : ∀ s ∈ split slash p, Ordinary s) : safePath p = true := by
 have noUp : dotDot ∉ split slash p := fun inside => (ordinary dotDot inside).notDotDot rfl
 have noDot : p ≠ lit "." := by
  rintro rfl
  exact (ordinary dot (by decide)).notDot rfl
 have filled : p ≠ [] := by
  rintro rfl
  exact (ordinary [] (by decide)).filled rfl
 have relative : hasPrefix p (lit "/") = false := by
  by_contra rooted
  have first := nil_head_split (Bool.not_eq_false _ ▸ rooted)
  exact (ordinary [] (List.mem_of_head? first)).filled rfl
 have whole : p ≠ lit ".." := fun up => noUp (dotDot_mem_split (.inl up))
 have front : hasPrefix p (lit "../") = false := by
  by_contra up
  exact noUp (dotDot_mem_split (.inr (.inl (Bool.not_eq_false _ ▸ up))))
 have middle : contains p (lit "/../") = false := by
  by_contra up
  exact noUp (dotDot_mem_split (.inr (.inr (.inl (Bool.not_eq_false _ ▸ up)))))
 have back : hasSuffix p (lit "/..") = false := by
  by_contra up
  exact noUp (dotDot_mem_split (.inr (.inr (.inr (Bool.not_eq_false _ ▸ up)))))
 simp [safePath, filled, noDot, whole, relative, front, middle, back]

theorem validate_iff {e : Entry} (made : WellMade e) : e.validate = .ok () ↔
   e.path ≠ [] ∧ hasPrefix e.path (lit "/") = false ∧
    ¬ (e.path = lit ".." ∨ hasPrefix e.path (lit "../") = true ∨
     contains e.path (lit "/../") = true) := by
 have size : ¬ (e.size ≠ 0 ∧ e.type ≠ .regular) := fun wrong => wrong.1 (made.size wrong.2)
 have target : ¬ ((e.type = .symlink ∨ e.type = .hardlink) ∧ e.linkTarget = []) :=
  fun wrong => made.target wrong.1 wrong.2
 have keys : ¬ e.xattrs.any (fun x => x.1 = []) = true := by
  intro wrong
  obtain ⟨x, inside, empty⟩ := List.any_eq_true.mp wrong
  exact made.keys x inside (by simpa using empty)
 rw [Entry.validate, guard_ok, guard_ok, guard_ok, if_neg size, if_neg target, if_neg keys,
  Bool.not_eq_true]
 simp

theorem clean_tarName {e : Entry} (steady : ∀ s ∈ split slash e.path, s = dot ∨ Ordinary s) :
  clean (tarName e) =
   if solid (split slash e.path) = [] then dot else join slash (solid (split slash e.path)) := by
 have solidNames : [] ∉ split slash e.path := by
  intro inside
  rcases steady [] inside with impossible | ordinary
  · cases impossible
  · exact ordinary.filled rfl
 have tame : ∀ s ∈ split slash e.path, Tame s := fun s inside => .inr (steady s inside)
 have filled : e.path ≠ [] := by
  intro empty
  rw [empty] at solidNames
  exact solidNames List.mem_cons_self
 have relative : ∀ rest, (e.path ++ rest).head? ≠ some slash := by
  intro rest rooted
  obtain ⟨c, tail, cut⟩ := List.exists_cons_of_ne_nil filled
  rw [cut] at rooted solidNames
  have first : c = slash := Option.some.inj rooted
  rw [first, split_sep_cons] at solidNames
  exact solidNames List.mem_cons_self
 unfold tarName
 split
 · have open_end : hasSuffix e.path [slash] = false := by
    by_contra ends
    obtain ⟨before, cut⟩ := List.isSuffixOf_iff_suffix.mp (Bool.not_eq_false _ ▸ ends)
    rw [← cut, split_concat_slash] at solidNames
    exact solidNames (List.mem_append_right _ List.mem_cons_self)
   have same : trimSuffix e.path [slash] = e.path := by rw [trimSuffix, open_end]; rfl
   have dropped : solid (split slash (e.path ++ [slash])) = solid (split slash e.path) := by
    rw [split_concat_slash, solid, List.filter_append]
    simp [solid]
   have tame' : ∀ s ∈ split slash (e.path ++ [slash]), Tame s := by
    intro s inside
    rw [split_concat_slash] at inside
    rcases List.mem_append.mp inside with before | last
    · exact tame s before
    · exact .inl (List.mem_singleton.mp last)
   rw [same, clean_tame (List.append_ne_nil_of_left_ne_nil filled _) (relative _) tame', dropped]
 · have whole := relative []
   rw [List.append_nil] at whole
   exact clean_tame filled whole tame

theorem clean_tarName_ordinary {e : Entry} (ordinary : ∀ s ∈ split slash e.path, Ordinary s) :
  clean (tarName e) = e.path := by
 rw [clean_tarName fun s inside => .inr (ordinary s inside), solid_ordinary ordinary,
  if_neg (split_ne_nil e.path), join_split]

end Names

/-- No filter and no `--strip-components`. -/
structure Unfiltered (x : ExtractOptions) : Prop where
 includes : x.includes = []
 excludes : x.excludes = []
 strip : x.stripComponents = 0

/-- `Validate` accepts the entry, `checkArchivePath` the cleaned name of its header, and an
extraction without filters sets out to create it. -/
structure Restorable (opts : Options) (e : Entry) : Prop where
 valid : e.validate = .ok ()
 safe : safePath (clean (headerOf opts e).name) = true
 created : ∀ x, Unfiltered x → ∃ h, treat x (headerOf opts e) = .create h

theorem treat_unfiltered {x : ExtractOptions} (plain : Unfiltered x) {h : Tar.Header}
  (safe : safePath (clean h.name) = true) : ∃ made, treat x h = .create made := by
 have all : selects x (clean h.name) = true := by
  rw [selects, plain.includes, plain.excludes]
  rfl
 have whole : ∀ p, stripComponents (clean p) x.stripComponents = some (clean p) := by
  intro p
  rw [plain.strip, stripComponents, if_pos (Int.le_refl 0), if_neg (clean_ne_nil p)]
 unfold treat
 rw [if_neg (by rw [all]; exact Bool.noConfusion), whole]
 dsimp only
 split
 · rw [whole]
   exact ⟨_, if_pos safe⟩
 · exact ⟨_, if_pos safe⟩

section Restorable

variable {opts : Options} {e : Entry} {top : Str} {names : List FileName}

theorem top_leads (top : Str) (names : List FileName) : top <+: pathBelow top names := by
 induction names generalizing top with
 | nil => exact List.prefix_refl top
 | cons name rest ih => exact (List.prefix_append top _).trans (ih _)

theorem ordinary_names (names : List FileName) : ∀ s ∈ names.map FileName.text, Ordinary s := by
 intro s inside
 obtain ⟨name, -, rfl⟩ := List.mem_map.mp inside
 exact name.ordinary

theorem restorable_of_segments (made : WellMade e)
  (steady : ∀ s ∈ split slash e.path, s = dot ∨ Ordinary s)
  (some_solid : solid (split slash e.path) ≠ []) : Restorable opts e := by
 have ordinary : ∀ s ∈ solid (split slash e.path), Ordinary s := by
  intro s inside
  obtain ⟨member, kept⟩ := List.mem_filter.mp inside
  rcases steady s member with isDot | ordinary
  · simp [isDot] at kept
  · exact ordinary
 have safe : safePath (clean (headerOf opts e).name) = true := by
  change safePath (clean (tarName e)) = true
  rw [clean_tarName steady, if_neg some_solid]
  apply safePath_ordinary
  rw [split_join_ordinary some_solid ordinary]
  exact ordinary
 have noUp : dotDot ∉ split slash e.path := by
  intro inside
  rcases steady dotDot inside with impossible | ordinary
  · exact absurd impossible (by decide)
  · exact ordinary.notDotDot rfl
 have noEmpty : [] ∉ split slash e.path := by
  intro inside
  rcases steady [] inside with impossible | ordinary
  · cases impossible
  · exact ordinary.filled rfl
 refine ⟨(validate_iff made).mpr ⟨?_, ?_, ?_⟩, safe, fun x plain => treat_unfiltered plain safe⟩
 · intro empty
   rw [empty] at noEmpty
   exact noEmpty List.mem_cons_self
 · by_contra rooted
   exact noEmpty (List.mem_of_head? (nil_head_split (Bool.not_eq_false _ ▸ rooted)))
 · rintro (whole | front | middle)
   · exact noUp (dotDot_mem_split (.inl whole))
   · exact noUp (dotDot_mem_split (.inr (.inl front)))
   · exact noUp (dotDot_mem_split (.inr (.inr (.inl middle))))

theorem ordinary_segments (ordinary : Ordinary top) (names : List FileName) :
  ∀ s ∈ split slash (pathBelow top names), Ordinary s := by
 rw [split_pathBelow, split_of_not_mem ordinary.single]
 intro s inside
 rcases List.mem_cons.mp inside with rfl | below
 · exact ordinary
 · exact ordinary_names names s below

theorem restorable_ordinary (made : WellMade e) (ordinary : Ordinary top)
  (path : e.path = pathBelow top names) : Restorable opts e := by
 have each := ordinary_segments ordinary names
 rw [← path] at each
 apply restorable_of_segments made fun s inside => .inr (each s inside)
 rw [solid_ordinary each]
 exact split_ne_nil _

theorem restorable_below_dot (made : WellMade e) (path : e.path = pathBelow dot names) :
  Restorable opts e ↔ e.path ≠ dot := by
 have segments : split slash e.path = dot :: names.map FileName.text := by
  rw [path, split_pathBelow]
  rfl
 have steady : ∀ s ∈ split slash e.path, s = dot ∨ Ordinary s := by
  rw [segments]
  intro s inside
  rcases List.mem_cons.mp inside with isDot | below
  · exact .inl isDot
  · exact .inr (ordinary_names names s below)
 have kept : solid (split slash e.path) = names.map FileName.text := by
  have dropped : solid (dot :: names.map FileName.text) = solid (names.map FileName.text) :=
   List.filter_cons_of_neg (by simp)
  rw [segments, dropped, solid_ordinary (ordinary_names names)]
 cases names with
 | nil =>
  have isDot : e.path = dot := path
  refine iff_of_false ?_ fun other => other isDot
  intro restorable
  have unsafe_ : clean (headerOf opts e).name = dot := by
   change clean (tarName e) = dot
   rw [clean_tarName steady, if_pos (by rw [kept]; rfl)]
  have safe := restorable.safe
  rw [unsafe_] at safe
  exact absurd safe (by decide)
 | cons name rest =>
  refine iff_of_true ?_ ?_
  · apply restorable_of_segments made steady
    rw [kept]
    exact List.cons_ne_nil _ _
  · intro isDot
    rw [isDot] at segments
    have impossible : [dot] = dot :: (name :: rest).map FileName.text := segments
    cases (List.cons.inj impossible).2

theorem not_restorable (made : WellMade e) (path : e.path = pathBelow top names)
  (bad : top = [slash] ∨ top = dotDot) : ¬ Restorable opts e := by
 intro restorable
 obtain ⟨-, relative, noUp⟩ := (validate_iff made).mp restorable.valid
 rcases bad with root | up
 · have rooted : hasPrefix e.path (lit "/") = true := by
    apply List.isPrefixOf_iff_prefix.mpr
    rw [path, root]
    exact top_leads [slash] names
   rw [rooted] at relative
   cases relative
 · cases names with
   | nil => exact noUp (.inl (path.trans up))
   | cons name rest =>
    refine noUp (.inr (.inl ?_))
    apply List.isPrefixOf_iff_prefix.mpr
    rw [path, up]
    have front : lit "../" <+: dotDot ++ slash :: name.text := ⟨name.text, rfl⟩
    exact front.trans (top_leads _ rest)

theorem restorable_iff (made : WellMade e) {root : Str}
  (path : e.path = pathBelow (base root) names) :
  Restorable opts e ↔
   Ordinary (base root) ∨ (base root = dot ∧ e.path ≠ dot) := by
 by_cases ordinary : Ordinary (base root)
 · exact iff_of_true (restorable_ordinary made ordinary path) (.inl ordinary)
 · by_cases isDot : base root = dot
   · rw [isDot] at path
     rw [restorable_below_dot made path]
     constructor
     · intro below
       exact .inr ⟨isDot, below⟩
     · rintro (wrong | ⟨-, below⟩)
       · exact absurd wrong ordinary
       · exact below
   · have bad : base root = [slash] ∨ base root = dotDot := by
      by_contra neither
      rw [not_or] at neither
      exact ordinary ((ordinary_base_iff root).mpr ⟨neither.1, isDot, neither.2⟩)
     refine iff_of_false (not_restorable made path bad) ?_
     rintro (fine | ⟨wrong, -⟩)
     · exact ordinary fine
     · exact isDot wrong

end Restorable

section Roots

variable {ar : Archiver}

theorem base_ne_nil (p : Str) : base p ≠ [] := by
 rcases base_cases p with root | ⟨filled, -⟩
 · rw [root]
   exact List.cons_ne_nil _ _
 · exact filled

theorem pathBelow_ne_nil {top : Str} (filled : top ≠ []) (names : List FileName) :
  pathBelow top names ≠ [] := by
 intro empty
 have front := top_leads top names
 rw [empty] at front
 exact filled (List.prefix_nil.mp front)

theorem linked_addRoots (roots : List (Str × Tree)) :
  Linked (addRoots ar roots newWriter).state := by
 have start : Linked newWriter := fun x inside => nomatch inside
 rw [addRoots_eq]
 refine (added_run (P := fun p => p ≠ []) start (fun p filled => filled) ?_).linked
 intro step inside p path
 obtain ⟨root, -, names, rfl⟩ := arcPath_schedule inside path
 exact pathBelow_ne_nil (base_ne_nil _) names

end Roots

/-- Of the entries that a root adds to an archive, those can be restored by name that do not lie at
or below `/` or `..` and are not `.` itself: all of them, when the base name of the cleaned root is
an ordinary name. -/
theorem recorded_restorable_iff (ar : Archiver) (earlier : List (Str × Tree)) (root : Str)
  (tree : Tree) {e : Entry}
  (recorded : e ∈ (addRoot ar root tree (addRoots ar earlier newWriter).state).state.entries.drop
   (addRoots ar earlier newWriter).state.entries.length) :
  Restorable ar.opts e ↔
   Ordinary (base (clean root)) ∨ (base (clean root) = dot ∧ e.path ≠ dot) := by
 have linked : Linked (addRoots ar earlier newWriter).state := linked_addRoots earlier
 generalize (addRoots ar earlier newWriter).state = w at linked recorded
 have filled : ∀ p, (∃ names, p = pathBelow (base (clean root)) names) → p ≠ [] := by
  rintro p ⟨names, rfl⟩
  exact pathBelow_ne_nil (base_ne_nil _) names
 have here : ∀ step ∈ Step.enter (clean root) :: rootSteps ar.opts w.devSeen (clean root) tree,
   ∀ p, step.arcPath = some p → ∃ names, p = pathBelow (base (clean root)) names := by
  intro step inside p path
  rcases List.mem_cons.mp inside with rfl | body
  · cases path
  · exact arcPath_rootSteps body path
 obtain ⟨added, entries, good⟩ := (added_run linked filled here).entries
 rw [addRoot_eq, entries, List.drop_left] at recorded
 obtain ⟨⟨names, path⟩, made⟩ := good e recorded
 exact restorable_iff made path

def directoryInfo : FileInfo := ⟨0x800001ED, 4096, by decide, 1, 1, 1, 5, 7, 2, 0, 0, (0, 0)⟩

def directoryAnswers : Answers where
 cancelled := none
 lstat := .ok directoryInfo
 readlink := .error ⟨false, lit "invalid argument"⟩
 opening := .ok ⟨.ok directoryInfo, none, [], none, .ok []⟩
 readdir := none
 openRoot := .ok (.ok directoryInfo)
 xattrs := .ok []
 owner := (lit "root", lit "root")

def nothing : Tree := .missing none ⟨false, lit "no such file or directory"⟩

def emptyDirectory : Tree := .node directoryAnswers ⟨[], List.nodup_nil⟩ fun _ => nothing

def www : FileName where
 text := lit "www"
 ordinary := ⟨by decide, by decide, by decide, by decide⟩
 noNul := by decide

def site : Tree := .node directoryAnswers ⟨[www], List.nodup_singleton www⟩ fun _ => emptyDirectory

def strictOptions : Options := ⟨true, false, [], false, true, false⟩

def blockArchiver : Archiver :=
 ⟨strictOptions, ⟨fun _ => .ok (Tar.zeros 512), fun _ => .eof⟩, fun _ _ => none⟩

/-- Three roots that name an existing directory, and what becomes of their entries: at `/` the
entries are refused by `Validate`, at `..` too, and at `.` the name of the directory itself is
refused by `checkArchivePath`. -/
theorem degenerate_roots_not_restorable :
  ((addRoot blockArchiver (lit "/") site newWriter).state.entries.map
    fun e => (e.path, e.validate)) =
   [(lit "/", .error (.absolute (lit "/"))), (lit "//www", .error (.absolute (lit "//www")))] ∧
  ((addRoot blockArchiver (lit "..") site newWriter).state.entries.map
    fun e => (e.path, e.validate)) =
   [(lit "..", .error (.dotDot (lit ".."))), (lit "../www", .error (.dotDot (lit "../www")))] ∧
  ((addRoot blockArchiver (lit ".") site newWriter).state.entries.map
    fun e => (e.path, e.validate, safePath (clean (headerOf strictOptions e).name))) =
   [(lit ".", .ok (), false), (lit "./www", .ok (), true)] := by
 refine ⟨?_, ?_, ?_⟩
 · decide +kernel
 · decide +kernel
 · decide +kernel

/-- The directory below the root `/srv`. -/
def siteEntry : Entry :=
 ⟨lit "srv/www", .dir, 0, 0o755, 0, 0, lit "root", lit "root", 1, 1, 1, [], 0, 0, [], 512, []⟩

theorem siteEntry_restorable : Restorable strictOptions siteEntry := by
 have recorded : siteEntry ∈ (addRoot blockArchiver (lit "/srv") site
   (addRoots blockArchiver [] newWriter).state).state.entries.drop
    (addRoots blockArchiver [] newWriter).state.entries.length := by
  decide +kernel
 have ordinary : Ordinary (base (clean (lit "/srv"))) :=
  (ordinary_base_iff _).mpr (by decide +kernel)
 exact (recorded_restorable_iff blockArchiver [] (lit "/srv") site recorded).mpr (.inl ordinary)

end BackImage.Archive.RestorableNames
