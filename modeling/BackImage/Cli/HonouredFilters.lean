/- source: cmd/backimage-selfextract/commands.go, internal/cli/restore.go
  digest: When the filters of an extraction decide what it creates, in both binaries. -/

import BackImage.Cli.ExtractCommands
import BackImage.Recovery.SelectedRestore

namespace BackImage.Cli.HonouredFilters

open Archive.Extract ExtractCommands Go.Path Go.Text Archive.PathGlob Index.Model Recovery.RangeWalk
open Recovery.SelectedRanges Recovery.SelectedTar Recovery.StreamTar Recovery.Unlock
open Go.Tar (Header trailer)

/-- The index describes the archive: the ranges of its entries lie in the content, and each is the
record of its entry. -/
structure Describes (tar : TarReader) (hdr : FileEntry → Header) (b : Backup) (plains : List Bytes)
  (idx : FileIndex) : Prop where
 laid : Laid b plains
 ranged : Ranged (contentLength plains.flatten) idx.entries
 records : ∀ x ∈ spans (contentLength plains.flatten) idx.entries,
  tar.Record (hdr x.entry) (x.bytes plains.flatten)
 names : ∀ e ∈ idx.entries, clean (hdr e).name = e.path

/-- A chunk that loads yields its plaintext; any set of chunks may fail. -/
def Faithful (pk : Packages) (b : Backup) (plains : List Bytes) : Prop :=
 ∀ verify i p g, plains[i]? = some p → plainChunkBytes pk b i verify = .ok g → g = p

def loadable (pk : Packages) (b : Backup) (verify : Bool) (i : Nat) : Bool :=
 (plainChunkBytes pk b i verify).isOk

variable {pk : Packages} {run : Schedule} {b : Backup} {plains : List Bytes} {idx : FileIndex}
 {tar : TarReader} {hdr : FileEntry → Header}

section Streams

variable {verify : Bool}

theorem loadsAs_loadable (faithful : Faithful pk b plains) (needed : Nat → Prop) :
  LoadsAs pk b verify plains (loadable pk b verify) needed := by
 intro i p _ at_i
 unfold loadable
 cases loaded : plainChunkBytes pk b i verify with
 | error e => exact .inr ⟨rfl, e, rfl⟩
 | ok g => exact .inl ⟨rfl, by rw [faithful verify i p g at_i loaded]⟩

theorem streamSelectedTar_front (describes : Describes tar hdr b plains idx)
  (faithful : Faithful pk b plains) (selected : List FileEntry) :
  (streamSelectedTar pk b (some idx) selected verify).1 <+:
   selectedBytes plains.flatten (selectionSet idx selected) idx.entries ++ trailer := by
 obtain ⟨ranges, collected, sound, bytes, -⟩ :=
  @collectRanges_ok b plains (selectionSet idx selected) describes.laid idx.entries
   describes.ranged [] (by simp)
 obtain ⟨out, s', outcome, written, -, whole, front⟩ :=
  writeRanges_spec describes.laid sound
   (loadStrict_answers (loadsAs_loadable faithful fun _ => True)) (fun _ _ => trivial)
   (cached_of_none (rfl : Loader.start.cached = none))
 rw [bytes, List.flatMap_nil, List.nil_append] at whole front
 unfold streamSelectedTar
 dsimp only
 rw [collected]
 dsimp only
 rw [written]
 cases outcome with
 | error e => exact front.trans (List.prefix_append _ _)
 | ok done =>
  dsimp only
  rw [whole rfl]

def recoverable (pk : Packages) (b : Backup) (plains : List Bytes) (idx : FileIndex)
  (wanted : Option (List Str)) (verify : Bool) : List Span :=
 (spans (contentLength plains.flatten) idx.entries).filter fun x =>
  asked wanted x.entry.path && readable plains (loadable pk b (mustVerify b verify)) x

theorem streamTarPartial_front (describes : Describes tar hdr b plains idx)
  (faithful : Faithful pk b plains) (wanted : Option (List Str)) :
  (streamTarPartial pk run b (some idx) wanted verify).1 <+:
    (recoverable pk b plains idx wanted verify).flatMap (Span.bytes plains.flatten) ++ trailer ∧
   ((∀ i, run.cancelled i = none) → (streamTarPartial pk run b (some idx) wanted verify).1 =
     (recoverable pk b plains idx wanted verify).flatMap (Span.bytes plains.flatten) ++
      trailer) := by
 obtain ⟨out, s', report, outcome, k, ran, -, -, salvaged, calmly, done⟩ :=
  @partialFrom_spec b plains (loadable pk b (mustVerify b verify)) wanted _ _ _ _ run describes.laid
   idx.entries 0 Loader.start PartialReport.empty describes.ranged
   (loadTolerant_marks (loadsAs_loadable faithful fun _ => True))
   (fun _ _ _ _ _ => trivial) recorded_start
 have bytes := salvaged.bytes
 have front : out <+:
   (recoverable pk b plains idx wanted verify).flatMap (Span.bytes plains.flatten) := by
  rw [bytes, recoverable]
  nth_rewrite 2 [← List.take_append_drop k (spans (contentLength plains.flatten) idx.entries)]
  rw [List.filter_append, List.flatMap_append]
  exact List.prefix_append _ _
 have whole : outcome = .ok () → out =
   (recoverable pk b plains idx wanted verify).flatMap (Span.bytes plains.flatten) := by
  intro fin
  rw [bytes, done fin, List.take_of_length_le (length_spans _ _).le, recoverable]
 unfold streamTarPartial
 dsimp only
 rw [ran]
 cases outcome with
 | error e =>
  refine ⟨front.trans (List.prefix_append _ _), ?_⟩
  intro calm
  cases calmly calm
 | ok fin =>
  dsimp only
  rw [whole rfl]
  exact ⟨List.prefix_rfl, fun _ => rfl⟩

theorem read_front (describes : Describes tar hdr b plains idx) {xs : List Span}
  (sub : ∀ x ∈ xs, x ∈ spans (contentLength plains.flatten) idx.entries) {w : Bytes} :
  (w <+: xs.flatMap (Span.bytes plains.flatten) ++ trailer →
    (tar.read w).1 <+: xs.map fun x => hdr x.entry) ∧
   (w = xs.flatMap (Span.bytes plains.flatten) ++ trailer →
    (tar.read w).1 = xs.map fun x => hdr x.entry) := by
 have records : List.Forall₂ tar.Record (xs.map fun x => hdr x.entry)
   (xs.map (Span.bytes plains.flatten)) := by
  rw [List.forall₂_map_left_iff, List.forall₂_map_right_iff, List.forall₂_same]
  exact fun x member => describes.records x (sub x member)
 rw [List.flatMap_def]
 constructor
 · exact tar.front records
 · rintro rfl
   exact tar.whole records

theorem entry_mem_of_span {content : Nat} {entries : List FileEntry} {x : Span}
  (member : x ∈ spans content entries) : x.entry ∈ entries := by
 induction entries with
 | nil => cases member
 | cons e rest ih =>
  rcases List.mem_cons.mp member with rfl | later
  · exact List.mem_cons_self
  · exact List.mem_cons_of_mem e (ih later)

theorem tried_subset (describes : Describes tar hdr b plains idx) {xs : List Span}
  (sub : ∀ x ∈ xs, x ∈ spans (contentLength plains.flatten) idx.entries) {w : Bytes}
  (front : w <+: xs.flatMap (Span.bytes plains.flatten) ++ trailer) {opts : ExtractOptions}
  {dest : Destination} {p : Str} (member : p ∈ (extract opts tar dest w).1) :
  ∃ x ∈ xs, p = x.entry.path := by
 obtain ⟨h, ⟨before, after, split, -⟩, rfl⟩ := tried_iff.mp ⟨dest, member⟩
 have listed : h ∈ (tar.read w).1 := by
  rw [split]
  simp
 obtain ⟨x, inside, rfl⟩ := List.mem_map.mp (((read_front describes sub).1 front).subset listed)
 exact ⟨x, inside, describes.names x.entry (entry_mem_of_span (sub x inside))⟩

theorem writes_of_front {opts : ExtractOptions} {hs more : List Header} {h : Header}
  (front : hs <+: more) (writes : Writes opts hs h) : Writes opts more h := by
 obtain ⟨tail, rfl⟩ := front
 obtain ⟨before, after, rfl, fine, creates⟩ := writes
 exact ⟨before, after ++ tail, by simp, fine, creates⟩

end Streams

section Filters

variable {flags : Flags} {selected : List FileEntry} {host : Host} {p : Str}

theorem selected_of_tried (describes : Describes tar hdr b plains idx) {w : Bytes}
  {opts : ExtractOptions} {dest : Destination} {wanted : List Str}
  (front : w <+: selectedBytes plains.flatten wanted idx.entries ++ trailer)
  (member : p ∈ (extract opts tar dest w).1) : p ∈ wanted := by
 obtain ⟨x, inside, rfl⟩ :=
  tried_subset describes (fun x inside => List.mem_of_mem_filter inside) front member
 simpa using List.of_mem_filter inside

theorem restore_selected (describes : Describes tar hdr b plains idx)
  (faithful : Faithful pk b plains)
  (member : p ∈ (extract (extractorOptions flags (some selected)) tar host.dest
   (restoreStream pk run b flags (some idx) (some selected)).1).1) :
  p ∈ selectionSet idx selected := by
 unfold restoreStream at member
 cases going : flags.keepGoing with
 | false =>
  rw [going] at member
  exact selected_of_tried describes (streamSelectedTar_front describes faithful selected) member
 | true =>
  rw [going] at member
  obtain ⟨x, inside, rfl⟩ := tried_subset describes
   (fun x inside => List.mem_of_mem_filter inside)
   (streamTarPartial_front describes faithful (some (selectionSet idx selected))).1 member
  have kept := List.of_mem_filter inside
  rw [Bool.and_eq_true] at kept
  simpa [asked] using kept.1

/-- Every record that can be read back, and that an extraction with these settings writes, belongs
to the selection. -/
def NothingElseReadable (pk : Packages) (b : Backup) (plains : List Bytes)
  (hdr : FileEntry → Header) (idx : FileIndex) (selected : List FileEntry) (flags : Flags) : Prop :=
 ∀ h, Writes (extractorOptions flags (some selected))
   ((recoverable pk b plains idx none true).map fun x => hdr x.entry) h →
  clean h.name ∈ selectionSet idx selected

/-- The filters decide what both commands let the extractor create, whatever the destination and the
run do, exactly when the self-extracting one is not asked to continue, or could not recover anything
outside the selection. -/
theorem filters_honoured_iff (describes : Describes tar hdr b plains idx)
  (faithful : Faithful pk b plains) (given : flags.includes ≠ [] ∨ flags.excludes ≠ [])
  (indexed : b.index pk = .ok idx)
  (matched : entriesMatching (some idx) flags.includes flags.excludes = .ok selected)
  (usable : flags.removeLocalImage = false ∧ flags.out ≠ [] ∧ 0 ≤ flags.strip) : (∀ run host,
    (∀ p ∈ (cmdExtract pk run b tar host flags).1, p ∈ selectionSet idx selected) ∧
    ∀ p ∈ (runRestore pk run b tar host flags).1, p ∈ selectionSet idx selected) ↔
   flags.keepGoing = false ∨ NothingElseReadable pk b plains hdr idx selected flags := by
 have listed : ∀ x ∈ recoverable pk b plains idx none true,
   x ∈ spans (contentLength plains.flatten) idx.entries :=
  fun x inside => List.mem_of_mem_filter inside
 constructor
 · intro honoured
   cases going : flags.keepGoing with
   | false => exact .inl rfl
   | true =>
    refine .inr ?_
    intro h writes
    have stream : (selfExtractStream pk calmSchedule b flags (some idx) (some selected)).1 =
      (recoverable pk b plains idx none true).flatMap (Span.bytes plains.flatten) ++
       trailer := by
     unfold selfExtractStream
     rw [going]
     exact (streamTarPartial_front describes faithful none).2 fun _ => rfl
    have headers := (read_front describes listed).2 stream
    rw [← headers] at writes
    obtain ⟨dest, member⟩ := tried_iff.mpr ⟨h, writes, rfl⟩
    exact (honoured calmSchedule ⟨none, .ok none, dest⟩).1 _
     ((cmdExtract_usable given indexed matched usable rfl).mpr member)
 · intro condition run host
   constructor
   · intro p member
     have tried := tried_cmdExtract given indexed matched member
     unfold selfExtractStream at tried
     cases going : flags.keepGoing with
     | false =>
      rw [going] at tried
      exact selected_of_tried describes (streamSelectedTar_front describes faithful selected) tried
     | true =>
      rw [going] at tried
      have nothingElse : NothingElseReadable pk b plains hdr idx selected flags :=
       condition.resolve_left (by simp [going])
      obtain ⟨h, writes, rfl⟩ := tried_iff.mp ⟨host.dest, tried⟩
      have front : (streamTarPartial pk run b (some idx) none true).1 <+: _ :=
       (streamTarPartial_front describes faithful none).1
      exact nothingElse h (writes_of_front ((read_front describes listed).1 front) writes)
   · intro p member
     exact restore_selected describes faithful (tried_runRestore given indexed matched member)

end Filters

def directoryHeader (path : Str) : Header :=
 { (default : Header) with typeflag := .dir, name := path }

def byteReader : TarReader where
 read w := ((w.takeWhile (· ≠ 0)).map fun c => directoryHeader [c], none)
 Record h r := ∃ c, c ≠ 0 ∧ r = [c] ∧ h = directoryHeader [c]
 front := by
  intro hs rs w records front
  induction records generalizing w with
  | nil =>
   have zero : w.takeWhile (· ≠ 0) = [] := by
    cases w with
    | nil => rfl
    | cons c w =>
     have first : c ∈ trailer := front.subset List.mem_cons_self
     rw [List.eq_of_mem_replicate first]
     rfl
   rw [zero]
   exact List.nil_prefix
  | cons record records ih =>
   obtain ⟨c, nonzero, rfl, rfl⟩ := record
   cases w with
   | nil => exact List.nil_prefix
   | cons d w =>
    obtain ⟨rfl, later⟩ := List.cons_prefix_cons.mp front
    rw [List.takeWhile_cons_of_pos (by simpa using nonzero), List.map_cons]
    exact List.cons_prefix_cons.mpr ⟨rfl, ih later⟩
 whole := by
  intro hs rs records
  induction records with
  | nil => decide +kernel
  | cons record records ih =>
   obtain ⟨c, nonzero, rfl, rfl⟩ := record
   dsimp only at ih ⊢
   rw [List.flatten_cons, List.append_assoc, List.singleton_append,
    List.takeWhile_cons_of_pos (by simpa using nonzero), List.map_cons, ih]

def directory (path : Str) (offset : Int64) : FileEntry :=
 { (default : FileEntry) with path := path, type := .dir, mode := lit "0755", tarOffset := offset }

def twoDirectories : FileIndex := ⟨1, [directory (lit "a") 0, directory (lit "b") 1]⟩

def directoryPackages : Packages :=
 { storePackages with decoders := ⟨fun _ => .error [], fun _ => .ok twoDirectories⟩ }

def directoryPlains : List Bytes := [lit "ab", trailer]

def directoryBackup : Backup :=
 Backup.fresh
  (.blobs ⟨fun _ => .error [], .ok [], .error [],
   fun i => if i = 0 then .ok (lit "ab") else .error (lit "lost")⟩)
  storedManifest ⟨1, [⟨0, lit "blob", Go.Sha256.digestText (lit "ab"), [], 2, 2⟩,
   ⟨1, lit "blob", [], [], 1024, 1024⟩]⟩

/-- `--include a`. -/
def includeFirst (keepGoing : Bool) : Flags where
 out := lit "out"
 includes := [lit "a"]
 excludes := []
 keepGoing := keepGoing
 overwrite := false
 strict := false
 strip := 0
 noVerify := false
 removeLocalImage := false
 noPreserveOwner := false

def willingHost : Host := ⟨none, .ok none, willing⟩

theorem describes_directories :
  Describes byteReader (directoryHeader ·.path) directoryBackup directoryPlains twoDirectories where
 laid := ⟨rfl, by decide +kernel, by decide +kernel⟩
 ranged := ⟨by decide +kernel, by decide +kernel, by decide +kernel, by decide +kernel,
  by decide +kernel, by decide +kernel, trivial⟩
 records := by
  have cut : (spans (contentLength directoryPlains.flatten) twoDirectories.entries).map
    (fun x => (directoryHeader x.entry.path, x.bytes directoryPlains.flatten)) =
    [(directoryHeader (lit "a"), lit "a"), (directoryHeader (lit "b"), lit "b")] := by
   decide +kernel
  intro x member
  have pair := List.mem_map_of_mem (f := fun x =>
   (directoryHeader x.entry.path, x.bytes directoryPlains.flatten)) member
  rw [cut] at pair
  simp only [List.mem_cons, List.not_mem_nil, or_false, Prod.mk.injEq] at pair
  rcases pair with ⟨header, bytes⟩ | ⟨header, bytes⟩
  · exact ⟨97, by decide, bytes, header⟩
  · exact ⟨98, by decide, bytes, header⟩
 names := by decide +kernel

theorem faithful_directories : Faithful directoryPackages directoryBackup directoryPlains := by
 intro verify i p g at_i loaded
 match i with
 | 0 =>
  have whole : some (lit "ab") = some p := at_i
  have plain : plainChunkBytes directoryPackages directoryBackup 0 verify = .ok (lit "ab") := by
   cases verify <;> decide +kernel
  rw [plain] at loaded
  rw [← Except.ok.inj loaded, Option.some.inj whole]
 | 1 =>
  have lost : (plainChunkBytes directoryPackages directoryBackup 1 verify).isOk = false := by
   cases verify <;> decide +kernel
  rw [loaded] at lost
  cases lost
 | i + 2 => cases at_i

/-- Asked for `a` and told to continue, the self-extracting binary creates `b` as well; the host
binary does not. -/
theorem continue_creates_unselected :
  Backup.index directoryPackages directoryBackup = .ok twoDirectories ∧
   entriesMatching (some twoDirectories) (includeFirst true).includes
    (includeFirst true).excludes = .ok [directory (lit "a") 0] ∧
   lit "b" ∉ selectionSet twoDirectories [directory (lit "a") 0] ∧
   cmdExtract directoryPackages calmSchedule directoryBackup byteReader willingHost
   (includeFirst true) = ([lit "a", lit "b"], .ok ()) ∧
   runRestore directoryPackages calmSchedule directoryBackup byteReader willingHost
   (includeFirst true) = ([lit "a"], .ok ()) := by
 refine ⟨?_, ?_, ?_, ?_, ?_⟩ <;> decide +kernel

theorem first_directory_only :
  (∀
   p ∈ (cmdExtract directoryPackages calmSchedule directoryBackup byteReader willingHost
    (includeFirst false)).1,
   p ∈ selectionSet twoDirectories [directory (lit "a") 0]) ∧
  ∀ p ∈ (runRestore directoryPackages calmSchedule directoryBackup byteReader willingHost
    (includeFirst false)).1,
   p ∈ selectionSet twoDirectories [directory (lit "a") 0] := by
 have indexed : Backup.index directoryPackages directoryBackup = .ok twoDirectories := by
  decide +kernel
 have matched : entriesMatching (some twoDirectories) (includeFirst false).includes
   (includeFirst false).excludes = .ok [directory (lit "a") 0] := by
  decide +kernel
 exact (filters_honoured_iff describes_directories faithful_directories (.inl (by decide)) indexed
  matched ⟨rfl, by decide, by decide⟩).mpr (.inl rfl) calmSchedule willingHost

end BackImage.Cli.HonouredFilters
