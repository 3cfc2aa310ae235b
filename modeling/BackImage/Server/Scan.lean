/- source: pkg/server/scan.go, pkg/server/stream.go
  digest: The server reads the index of a backup back from the bytes of its archive. -/

import BackImage.Archive.Layout
import BackImage.Archive.RestorableNames
import BackImage.Index.Entries

namespace BackImage.Server.Scan

open Archive.Layout Archive.RestorableNames Archive.Schedule Go Go.ModeBits Go.Path Go.Text
open Index.Entries Index.Model Lib.Sequence
open Archive.Writer hiding EntryType
open Go.Sha256 (sum256)

structure ScanStats where
 files : Int64
 dirs : Int64
 symlinks : Int64
 hardlinks : Int64
 devices : Int64
 bytesRaw : Int64
 deriving DecidableEq

def countEntry (stats : ScanStats) : Tar.Typeflag → ScanStats
 | .reg => { stats with files := stats.files + 1 }
 | .dir => { stats with dirs := stats.dirs + 1 }
 | .symlink => { stats with symlinks := stats.symlinks + 1 }
 | .link => { stats with hardlinks := stats.hardlinks + 1 }
 | .char | .block | .fifo => { stats with devices := stats.devices + 1 }
 | .other _ => stats

def entryType : Tar.Typeflag → EntryType
 | .reg => .reg
 | .dir => .dir
 | .symlink => .sym
 | .link => .hard
 | .char => .chr
 | .block => .blk
 | .fifo => .fifo
 | .other _ => .other []

def tarMode (h : Tar.Header) : UInt32 := permissionBits (headerMode h.mode)

inductive ScanError
 | read (cause : Str)
 | unsupported (name : Str) (flag : Tar.Typeflag)
 | payload (name : Str)
 deriving DecidableEq

structure Scanned where
 entries : List FileEntry
 stats : ScanStats
 error : Option ScanError
 deriving DecidableEq

/-- The loop of `scanArchive` before a call of `Next`: the bytes not read yet, the count of
`countingReader`, and the padding the reader has still to skip. -/
structure Scanner where
 rest : Bytes
 n : Int64
 pad : Nat
 entries : List FileEntry
 stats : ScanStats

def scanEntry (h : Tar.Header) (offset : Int64) : FileEntry where
 path := clean h.name
 type := entryType h.typeflag
 size := 0
 mode := formatMode (tarMode h)
 uid := h.uid
 gid := h.gid
 uname := h.uname
 gname := h.gname
 mtime := h.modTime
 linkTarget := h.linkname
 tarOffset := offset
 sha256 := []

/-- The loop of `scanArchive`. -/
def scanLoop (format : Tar.Format) : Nat → Scanner → Option Scanned
 | 0, _ => none
 | fuel + 1, s =>
  let offset := (s.n + 511) &&& ~~~511
  match Tar.next format s.pad s.rest with
  | .eof => some ⟨s.entries, s.stats, none⟩
  | .failed cause => some ⟨s.entries, s.stats, some (.read cause)⟩
  | .header h size =>
   let entry := scanEntry h offset
   let body := s.rest.drop size
   if entry.type = .other [] then
    some ⟨s.entries, s.stats, some (.unsupported h.name h.typeflag)⟩
   else if h.typeflag = .reg then
    let length := h.size.toNatClampNeg
    if body.length < length then some ⟨s.entries, s.stats, some (.payload h.name)⟩
    else
     let entry := { entry with
      size := h.size
      sha256 := hexEncode (sum256 (body.take length)) }
     let stats := { s.stats with bytesRaw := s.stats.bytesRaw + Int64.ofNat length }
     scanLoop format fuel ⟨body.drop length, s.n + Int64.ofNat size + Int64.ofNat length,
      Tar.padding length, s.entries ++ [entry], countEntry stats h.typeflag⟩
   else
    scanLoop format fuel ⟨body, s.n + Int64.ofNat size, 0, s.entries ++ [entry],
     countEntry s.stats h.typeflag⟩

def start (stream : Bytes) : Scanner := ⟨stream, 0, 0, [], ⟨0, 0, 0, 0, 0, 0⟩⟩

def scanArchive (format : Tar.Format) (stream : Bytes) : Option Scanned :=
 scanLoop format (stream.length + 1) (start stream)

def ScanStats.totals (stats : ScanStats) (bytesStored : Int64) : Totals where
 files := stats.files
 dirs := stats.dirs
 symlinks := stats.symlinks
 hardlinks := stats.hardlinks
 devices := stats.devices
 bytesRaw := stats.bytesRaw
 bytesStored := bytesStored

def ofCounters (c : Counters) : ScanStats :=
 ⟨c.files, c.dirs, c.symlinks, c.hardlinks, c.devices + c.fifos, c.bytesRaw⟩

theorem totals_ofCounters (c : Counters) (stored : Int64) :
  (ofCounters c).totals stored = totals c stored := rfl

theorem ofCounters_add (c : Counters) (type : Archive.Writer.EntryType) (n : Int64) :
  ofCounters (c.add type n) =
   countEntry { ofCounters c with bytesRaw := c.bytesRaw + n } (typeflag type) := by
 cases type with
 | regular | dir | symlink | hardlink => rfl
 | charDevice | blockDevice =>
  have moved : c.devices + 1 + c.fifos = c.devices + c.fifos + 1 := by
   rw [Int64.add_assoc, Int64.add_comm 1, ← Int64.add_assoc]
  simp only [ofCounters, Counters.add, typeflag, countEntry, moved]
 | fifo =>
  have moved : c.devices + (c.fifos + 1) = c.devices + c.fifos + 1 :=
   (Int64.add_assoc _ _ _).symm
  simp only [ofCounters, Counters.add, typeflag, countEntry, moved]

/-- Two index entries that tell the same but for owner names and time. -/
structure Agrees (scanned recorded : FileEntry) : Prop where
 path : scanned.path = recorded.path
 type : scanned.type = recorded.type
 size : scanned.size = recorded.size
 mode : scanned.mode = recorded.mode
 uid : scanned.uid = recorded.uid
 gid : scanned.gid = recorded.gid
 linkTarget : scanned.linkTarget = recorded.linkTarget
 sha256 : scanned.sha256 = recorded.sha256
 tarOffset : scanned.tarOffset = recorded.tarOffset

/-- What an entry must be like to be read back from its header: its name is clean, and what the
header has no room for is empty. -/
structure Legible (e : Entry) : Prop where
 name : clean (tarName e) = e.path
 size : e.type ≠ .regular → e.size = 0
 digest : e.type ≠ .regular → e.sha256 = []
 target : e.type ≠ .symlink → e.type ≠ .hardlink → e.linkTarget = []

section Record

variable {opts : Options} {e : Entry} {h : Tar.Header}

theorem entryType_typeflag (type : Archive.Writer.EntryType) :
  entryType (typeflag type) = typeCode type := by
 cases type <;> rfl

theorem agrees_scanEntry (legible : Legible e) (kept : Tar.Kept (headerOf opts e) h)
  {size : Int64} {digest : Str} (sized : size = e.size) (hashed : digest = e.sha256) :
  Agrees { scanEntry h e.tarOffset with size := size, sha256 := digest } (fileEntry e) := by
 refine ⟨?_, ?_, sized, ?_, kept.uid, kept.gid, ?_, hashed, rfl⟩
 · change clean h.name = e.path
   rw [kept.name]
   exact legible.name
 · change entryType h.typeflag = typeCode e.type
   rw [kept.typeflag]
   exact entryType_typeflag e.type
 · change formatMode (permissionBits (headerMode h.mode)) = formatMode (permissionBits e.mode)
   rw [kept.mode]
   exact congrArg formatMode (permissionBits_headerMode e.mode)
 · change h.linkname = e.linkTarget
   rw [kept.linkname]
   change (if e.type = .symlink ∨ e.type = .hardlink then e.linkTarget else []) = e.linkTarget
   split
   · rfl
   · rename_i other
     rw [not_or] at other
     exact (legible.target other.1 other.2).symm

theorem scan_record {format : Tar.Format} (faithful : format.Faithful) (legible : Legible e)
  {content blocks : Bytes} (encoded : format.encode (headerOf opts e) = .ok blocks)
  (full : content.length = (headerOf opts e).payload)
  (digest : e.type = .regular → e.sha256 = hexEncode (sum256 content))
  (bare : e.type ≠ .regular → content = []) {n : Int64} (offset : e.tarOffset = nextHeader n)
  (pad : Nat) (rows : List FileEntry) (c : Counters) : ∃ row, Agrees row (fileEntry e) ∧
  ∀ rest fuel,
   scanLoop format (fuel + 1)
     ⟨Tar.zeros pad ++ (blocks ++ (content ++ rest)), n, pad, rows, ofCounters c⟩ =
    scanLoop format fuel
     ⟨rest, n + Int64.ofNat (pad + blocks.length) + Int64.ofNat content.length,
      Tar.padding content.length, rows ++ [row],
      ofCounters (c.add e.type (Int64.ofNat content.length))⟩ := by
 obtain ⟨h, kept, decoded⟩ := faithful.reads encoded
 have found : ∀ rest, Tar.next format pad (Tar.zeros pad ++ (blocks ++ (content ++ rest))) =
   .header h (pad + blocks.length) := by
  intro rest
  rw [Tar.next_zeros, decoded]
 have body : ∀ rest, (Tar.zeros pad ++ (blocks ++ (content ++ rest))).drop (pad + blocks.length) =
   content ++ rest := by
  intro rest
  rw [← List.append_assoc]
  apply List.drop_left'
  rw [List.length_append, Tar.zeros, List.length_replicate]
 have flag : h.typeflag = typeflag e.type := kept.typeflag
 have supported : ¬ (scanEntry h e.tarOffset).type = .other [] := by
  change ¬ entryType h.typeflag = .other []
  rw [flag, entryType_typeflag]
  intro other
  cases kind : e.type <;> rw [kind] at other <;> cases other
 have here : (n + 511) &&& ~~~511 = e.tarOffset := offset.symm
 by_cases regular : e.type = .regular
 · have isReg : h.typeflag = .reg := by rw [flag, regular]; rfl
   have length : h.size.toNatClampNeg = content.length := by
    rw [kept.size, full]
    simp [Tar.Header.payload, headerOf, typeflag, regular]
   have sized : h.size = e.size := by
    rw [kept.size]
    simp [headerOf, regular]
   refine ⟨_, agrees_scanEntry legible kept sized (digest regular).symm, ?_⟩
   intro rest fuel
   have enough : ¬ (content ++ rest).length < content.length := by
    rw [List.length_append]
    omega
   rw [scanLoop, ofCounters_add, ← flag]
   simp only [found, body, here, if_neg supported, if_pos isReg, length, if_neg enough,
    List.take_left', List.drop_left']
   rfl
 · have notReg : ¬ h.typeflag = .reg := by
    intro isReg
    rw [flag] at isReg
    cases kind : e.type with
    | regular => exact absurd kind regular
    | dir | symlink | hardlink | charDevice | blockDevice | fifo =>
     rw [kind] at isReg
     cases isReg
   have empty := bare regular
   refine ⟨_, agrees_scanEntry legible kept (legible.size regular).symm
    (legible.digest regular).symm, ?_⟩
   intro rest fuel
   have zero : Int64.ofNat 0 = 0 := rfl
   rw [scanLoop, ofCounters_add, ← flag]
   simp only [found, body, here, if_neg supported, if_neg notReg]
   simp only [empty, List.length_nil, List.nil_append, zero, Int64.add_zero]
   rfl

end Record

section Archive

variable {ar : Archiver} {records : List Record} {t : Tar.Output}

theorem scan_laid (faithful : ar.format.Faithful) (laid : Laid ar records t) (complete : t.left = 0)
  (legible : ∀ r ∈ records, Legible r.1) :
  ∃ rows, List.Forall₂ (fun row (r : Record) => Agrees row (fileEntry r.1)) rows records ∧
   ∀ rest fuel, scanLoop ar.format (fuel + records.length) (start (t.out ++ rest)) =
    scanLoop ar.format fuel
     ⟨rest, Int64.ofNat t.out.length, t.pad, rows, ofCounters (tally records)⟩ := by
 induction laid with
 | nil => exact ⟨[], .nil, fun rest fuel => rfl⟩
 | @snoc records t e content blocks before whole offset fits encoded digest bare ih =>
  have full : content.length = (headerOf ar.opts e).payload := by
   change (headerOf ar.opts e).payload - content.length = 0 at complete
   omega
  have earlier : ∀ r ∈ records, Legible r.1 :=
   fun r inside => legible r (List.mem_append_left _ inside)
  have last : Legible e := legible (e, content) (List.mem_append_right _ List.mem_cons_self)
  obtain ⟨rows, agree, scans⟩ := ih whole earlier
  obtain ⟨row, agrees, turn⟩ := scan_record faithful last encoded full digest bare offset t.pad rows
   (tally records)
  have counted : tally (records ++ [(e, content)]) =
    (tally records).add e.type (Int64.ofNat content.length) := by
   rw [tally, tally, List.foldl_append]
   rfl
  have position : Int64.ofNat (t.out ++ Tar.zeros t.pad ++ blocks ++ content).length =
    Int64.ofNat t.out.length + Int64.ofNat (t.pad + blocks.length) +
     Int64.ofNat content.length := by
   rw [← Int64.ofNat_add, ← Int64.ofNat_add]
   simp only [List.length_append, Tar.zeros, List.length_replicate]
   rw [Nat.add_assoc t.out.length]
  refine ⟨rows ++ [row], List.rel_append agree (.cons agrees .nil), ?_⟩
  intro rest fuel
  have stream : t.out ++ Tar.zeros t.pad ++ blocks ++ content ++ rest =
    t.out ++ (Tar.zeros t.pad ++ (blocks ++ (content ++ rest))) := by
   simp only [List.append_assoc]
  have turns : fuel + (records ++ [(e, content)]).length = fuel + 1 + records.length := by
   rw [List.length_append, List.length_singleton]
   omega
  rw [stream, turns, scans, turn, position, counted, full]

theorem legible_archived {roots : List (Str × Tree)} {w : TarWriter}
  (ordinary : ∀ root ∈ roots, Ordinary (base (clean root.1)))
  (archived : Archived ar (schedule ar.opts none roots) records w) :
  ∀ r ∈ records, Legible r.1 := by
 intro r inside
 obtain ⟨d, drafted, recorded⟩ := exists_left_of_forall₂ archived.recorded inside
 obtain ⟨step, listed, path⟩ := arcPath_of_mem_drafts drafted
 obtain ⟨root, given, names, is⟩ := arcPath_schedule listed path
 have plain := archived.plain d drafted
 refine ⟨?_, recorded.bare, recorded.digest, ?_⟩
 · apply clean_tarName_ordinary
   rw [recorded.path, is]
   exact ordinary_segments (ordinary root given) names
 · intro notSymlink notHardlink
   rcases recorded.kind with ⟨type, target⟩ | ⟨-, isLink⟩
   · rw [target]
     rw [type] at notSymlink
     exact plain.noTarget notSymlink
   · exact absurd isLink notHardlink

end Archive

/-- The server rebuilds the index of a backup from the bytes of its archive: the entries of the
local pipeline in their order, and its totals. -/
theorem scan_rebuilds_index {ar : Archiver} (faithful : ar.format.Faithful)
  {roots : List (Str × Tree)} (ordinary : ∀ root ∈ roots, Ordinary (base (clean root.1)))
  {w w' : TarWriter} (added : addRoots ar roots newWriter = done w)
  (closed : close ar w = done w') :
  ∃ entries stats, scanArchive ar.format w'.tw.out = some ⟨entries, stats, none⟩ ∧
   List.Forall₂ Agrees entries (archiveToIndex w'.entries) ∧
   ∀ stored, stats.totals stored = totals w'.stats.counters stored := by
 obtain ⟨records, archived⟩ := archived_addRoots added
 obtain ⟨tw, ended, rfl⟩ := within_eq_done.mp closed
 obtain ⟨complete, out⟩ := Tar.close_eq_done ended
 obtain ⟨rows, agree, scans⟩ :=
  scan_laid faithful archived.laid complete (legible_archived ordinary archived)
 refine ⟨rows, ofCounters (tally records), ?_, ?_, ?_⟩
 · have short := length_laid faithful archived.laid
   have stream : tw.out = w.tw.out ++ (Tar.zeros w.tw.pad ++ Tar.trailer) := by
    rw [out, List.append_assoc]
   have last : Tar.next ar.format w.tw.pad (Tar.zeros w.tw.pad ++ Tar.trailer) = .eof := by
    rw [Tar.next_zeros, faithful.ends]
   obtain ⟨spare, fuel⟩ : ∃ spare, tw.out.length + 1 = spare + 1 + records.length := by
    refine ⟨tw.out.length - records.length, ?_⟩
    rw [stream, List.length_append]
    omega
   change scanArchive ar.format tw.out = _
   rw [scanArchive, fuel, stream, scans, scanLoop]
   simp only [last]
 · change List.Forall₂ Agrees rows (archiveToIndex w.entries)
   rw [archived.entries, archiveToIndex, List.map_map]
   exact List.forall₂_map_right_iff.mpr agree
 · intro stored
   change (ofCounters (tally records)).totals stored = totals w.stats.counters stored
   rw [totals_ofCounters, archived.counters]

theorem three_sized : (0 : Int64) ≤ 3 := by decide

def fileInfo : FileInfo := ⟨0o644, 3, three_sized, 1, 1, 1, 5, 9, 2, 0, 0, (0, 0)⟩

def fileAnswers : Answers where
 cancelled := none
 lstat := .ok fileInfo
 readlink := .error ⟨false, lit "invalid argument"⟩
 opening := .ok ⟨.ok fileInfo, none, lit "abc", none, .ok []⟩
 readdir := some ⟨false, lit "not a directory"⟩
 openRoot := .error ⟨false, lit "not a directory"⟩
 xattrs := .ok []
 owner := (lit "root", lit "root")

def nameA : FileName := ⟨lit "a", ⟨by decide, by decide, by decide, by decide⟩, by decide⟩
def nameB : FileName := ⟨lit "b", ⟨by decide, by decide, by decide, by decide⟩, by decide⟩

def linkedPair : Tree :=
 .node directoryAnswers ⟨[nameB, nameA], by decide⟩ fun _ =>
  .node fileAnswers ⟨[], List.nodup_nil⟩ fun _ => nothing

def pairHeaders : List Tar.Header :=
 [⟨.dir, lit "srv/", [], 0, 0o755, 0, 0, lit "root", lit "root", 1, none, none, 0, 0, []⟩,
  ⟨.reg, lit "srv/a", [], 3, 0o644, 0, 0, lit "root", lit "root", 1, none, none, 0, 0, []⟩,
  ⟨.link, lit "srv/b", lit "srv/a", 0, 0o644, 0, 0, lit "root", lit "root", 1, none, none,
   0, 0, []⟩]

def pairArchiver : Archiver := ⟨strictOptions, Tar.tableFormat pairHeaders, fun _ _ => none⟩

def pairAdded : Effect TarWriter WalkError :=
 addRoots pairArchiver [(lit "/srv", linkedPair)] newWriter

def pairClosed : Effect TarWriter WalkError := close pairArchiver pairAdded.state

/-- The archive of a file with two names is scanned back. -/
theorem pair_scanned : pairClosed.state.entries.map (fun e => (e.path, e.tarOffset)) =
   [(lit "srv", 0), (lit "srv/a", 512), (lit "srv/b", 1536)] ∧
  ∃ entries stats, scanArchive pairArchiver.format pairClosed.state.tw.out =
    some ⟨entries, stats, none⟩ ∧
   List.Forall₂ Agrees entries (archiveToIndex pairClosed.state.entries) ∧
   ∀ stored, stats.totals stored = totals pairClosed.state.stats.counters stored := by
 have added : pairAdded = done pairAdded.state := Effect.eq_done (by decide +kernel)
 have closed : pairClosed = done pairClosed.state := Effect.eq_done (by decide +kernel)
 have ordinary : ∀ root ∈ [(lit "/srv", linkedPair)], Ordinary (base (clean root.1)) := by
  intro root inside
  rw [List.mem_singleton.mp inside]
  exact (ordinary_base_iff _).mpr (by decide +kernel)
 exact ⟨by decide +kernel,
  scan_rebuilds_index (Tar.tableFormat_faithful pairHeaders) ordinary added closed⟩

end BackImage.Server.Scan
