/- source: pkg/backup/pipeline.go, pkg/index/model.go
  digest: Which archives the index step accepts. -/

import BackImage.Archive.DistinctPaths
import BackImage.Archive.Layout
import BackImage.Archive.RestorableNames
import BackImage.Index.Entries
import BackImage.Index.FileTable

namespace BackImage.Backup.IndexAcceptance

open Archive.DistinctPaths Archive.Writer Archive.Layout Archive.RestorableNames Archive.Schedule
open Index.Entries Crypt.Envelope Crypt.Integrity Go Go.ModeBits Go.Text
open Index.FileTable Index.Model Index.Private Lib.Sequence Lib.Wrap

def yearZero : Time := -366 * 86400 * 1000000000

def yearTenThousand : Time := 3652059 * 86400 * 1000000000

/-- `Time.MarshalJSON` writes years 0 to 9999, in the zone of the value. -/
def Encodable (zone : Time → Int) (t : Time) : Prop :=
 yearZero ≤ t + zone t ∧ t + zone t < yearTenThousand

instance (zone : Time → Int) (t : Time) : Decidable (Encodable zone t) :=
 inferInstanceAs (Decidable (_ ∧ _))

/-- `encoding/json` refuses an index for its times, and for nothing else. -/
def RefusesTimes (codec : IndexCodec) (zone : Time → Int) : Prop :=
 ∀ v : IndexValue, (∃ text, codec.encode v = some text) ↔ ∀ e ∈ v.list, Encodable zone e.mtime

theorem known_typeCode (type : Archive.Writer.EntryType) : known (typeCode type) = true := by
 cases type <;> rfl

/-- What the index asks of an object that a backup sets out to record. -/
def Indexable (zone : Time → Int) (d : Entry) : Prop :=
 d.path.length ≤ maxPathBytes ∧ d.linkTarget.length ≤ maxPathBytes ∧ Encodable zone d.modTime

instance (zone : Time → Int) (d : Entry) : Decidable (Indexable zone d) :=
 inferInstanceAs (Decidable (_ ∧ _ ∧ _))

section Archive

variable {ar : Archiver} {roots : List (Str × Tree)} {records : List Record} {w : TarWriter}

theorem path_ne_nil (archived : Archived ar (schedule ar.opts none roots) records w) :
  ∀ e ∈ w.entries, e.path ≠ [] := by
 intro e inside
 rw [archived.entries] at inside
 obtain ⟨r, listed, rfl⟩ := List.mem_map.mp inside
 obtain ⟨d, drafted, recorded⟩ := exists_left_of_forall₂ archived.recorded listed
 obtain ⟨step, planned, path⟩ := arcPath_of_mem_drafts drafted
 obtain ⟨root, -, names, is⟩ := arcPath_schedule planned path
 rw [recorded.path, is]
 exact pathBelow_ne_nil (base_ne_nil _) names

theorem fit_fileEntry (archived : Archived ar (schedule ar.opts none roots) records w) {e : Entry}
  (inside : e ∈ w.entries) : Fit (fileEntry e) ↔
   e.path.length ≤ maxPathBytes ∧ e.linkTarget.length ≤ maxPathBytes ∧ 0 ≤ e.tarOffset := by
 constructor
 · intro fit
   exact ⟨fit.pathSize, fit.targetSize, fit.offset⟩
 · rintro ⟨pathSize, targetSize, offset⟩
   have filled := path_ne_nil archived
   have listed := inside
   rw [archived.entries] at listed
   obtain ⟨r, row, rfl⟩ := List.mem_map.mp listed
   obtain ⟨d, drafted, recorded⟩ := exists_left_of_forall₂ archived.recorded row
   have plain := archived.plain d drafted
   refine ⟨filled _ inside, pathSize, targetSize, known_typeCode _, recorded.size, offset,
    ?_, ?_, ?_⟩
   · exact parseMode_formatMode (Nat.lt_trans (permissionBits_lt _) (by decide))
   · intro isReg
     have regular : r.1.type = .regular := by
      change typeCode r.1.type = .reg at isReg
      revert isReg
      cases r.1.type <;> intro isReg <;> first | rfl | cases isReg
     change validHex64 r.1.sha256 = true
     rw [digest_laid archived.laid r row regular]
     exact validHex64_hexEncode (length_sum256 _)
   · intro isLink
     change r.1.linkTarget ≠ []
     by_cases hard : r.1.type = .hardlink
     · obtain ⟨e', target, same⟩ := List.mem_map.mp (archived.targets _ inside hard)
       rw [← same]
       exact filled e' target
     · have symlink : r.1.type = .symlink := by
        change typeCode r.1.type = .sym ∨ typeCode r.1.type = .hard at isLink
        revert isLink hard
        cases r.1.type <;> simp [typeCode]
       rcases recorded.kind with ⟨type, target⟩ | ⟨-, isHard⟩
       · rw [target]
         exact plain.target (type.symm.trans symlink)
       · exact absurd isHard hard

theorem indexable_iff (zone : Time → Int)
  (archived : Archived ar (schedule ar.opts none roots) records w) :
  (∀ d ∈ drafts ar.opts (schedule ar.opts none roots), Indexable zone d) ↔
   ∀ e ∈ w.entries, e.path.length ≤ maxPathBytes ∧ e.linkTarget.length ≤ maxPathBytes ∧
    Encodable zone e.modTime := by
 constructor
 · intro each
   have source : ∀ e ∈ w.entries, ∃ d, Recorded d e ∧ Indexable zone d := by
    intro e inside
    rw [archived.entries] at inside
    obtain ⟨r, listed, rfl⟩ := List.mem_map.mp inside
    obtain ⟨d, drafted, recorded⟩ := exists_left_of_forall₂ archived.recorded listed
    exact ⟨d, recorded, each d drafted⟩
   have short : ∀ e ∈ w.entries, e.path.length ≤ maxPathBytes := by
    intro e inside
    obtain ⟨d, recorded, sized⟩ := source e inside
    rw [recorded.path]
    exact sized.1
   intro e inside
   obtain ⟨d, recorded, sized⟩ := source e inside
   refine ⟨short e inside, ?_, ?_⟩
   · rcases recorded.kind with ⟨-, target⟩ | ⟨-, hard⟩
     · rw [target]
       exact sized.2.1
     · obtain ⟨e', listed, same⟩ := List.mem_map.mp (archived.targets e inside hard)
       rw [← same]
       exact short e' listed
   · rw [recorded.modTime]
     exact sized.2.2
 · intro each d drafted
   obtain ⟨r, listed, recorded⟩ := exists_right_of_forall₂ archived.recorded drafted
   have inside : r.1 ∈ w.entries := by
    rw [archived.entries]
    exact List.mem_map.mpr ⟨r, listed, rfl⟩
   obtain ⟨path, target, time⟩ := each r.1 inside
   rw [recorded.path] at path
   rw [recorded.modTime] at time
   refine ⟨path, ?_, time⟩
   rcases recorded.kind with ⟨-, same⟩ | ⟨regular, -⟩
   · rw [← same]
     exact target
   · have notSymlink : d.type ≠ .symlink := by
      rw [regular]
      decide
     rw [(archived.plain d drafted).noTarget notSymlink]
     exact Nat.zero_le _

theorem ordered_archiveToIndex {entries : List Entry} : Ordered (archiveToIndex entries) ↔
   (entries.map Entry.path).Nodup ∧ entries.Pairwise fun a b => a.tarOffset < b.tarOffset := by
 constructor
 · rintro ⟨distinct, growing⟩
   rw [archiveToIndex, List.map_map] at distinct
   rw [archiveToIndex, List.pairwise_map] at growing
   exact ⟨distinct, growing⟩
 · rintro ⟨distinct, growing⟩
   constructor
   · rw [archiveToIndex, List.map_map]
     exact distinct
   · rw [archiveToIndex, List.pairwise_map]
     exact growing

end Archive

/-- An archive that was built is accepted exactly when no object of its trees has a path or a link
target above the limit or a time outside the years JSON can hold, and its last header starts within
a signed 64-bit offset. -/
theorem writeIndex_accepts_iff {ar : Archiver} (faithful : ar.format.Faithful) {codec : IndexCodec}
  {zone : Time → Int} (refuses : RefusesTimes codec zone) {roots : List (Str × Tree)}
  {w w' : TarWriter} (added : addRoots ar roots newWriter = done w) (closed : close ar w = done w')
  (few : w'.entries.length ≤ maxIndexEntries) {schema : Int}
  (current : schema = schemaVersion ∨ schema = schemaVersionPrivate) (ae : Aead)
  (sealer : Option KeyedSealer) :
  (∃ blob, writeIndex codec ae (some ⟨schema, some (archiveToIndex w'.entries)⟩) sealer =
   .ok blob) ↔
   (∀ d ∈ drafts ar.opts (schedule ar.opts none roots), Indexable zone d) ∧
    (headerStart ar w'.entries.dropLast : Int) < bound := by
 obtain ⟨records, archived⟩ := archived_addRoots added
 obtain ⟨tw, -, rfl⟩ := within_eq_done.mp closed
 change w.entries.length ≤ maxIndexEntries at few
 change (∃ blob, writeIndex codec ae (some ⟨schema, some (archiveToIndex w.entries)⟩) sealer =
  .ok blob) ↔ _ ∧ (headerStart ar w.entries.dropLast : Int) < bound
 have known_schema : checkSchema schema = .ok () := by
  rcases current with rfl | rfl <;> rfl
 have length : (archiveToIndex w.entries).length = w.entries.length := List.length_map _
 have starts := growing_iff faithful archived.laid
 rw [← archived.entries] at starts
 rw [writeIndex_accepts, refuses, validateEntries_ok_iff, indexable_iff zone archived, ← starts]
 change checkSchema schema = .ok () ∧ ((archiveToIndex w.entries).length ≤ maxIndexEntries ∧
  (∀ e ∈ archiveToIndex w.entries, Fit e) ∧ Ordered (archiveToIndex w.entries)) ∧
  (∀ e ∈ archiveToIndex w.entries, Encodable zone e.mtime) ↔ _
 rw [ordered_archiveToIndex, length, archiveToIndex, List.forall_mem_map, List.forall_mem_map]
 constructor
 · rintro ⟨-, ⟨-, fit, -, growing⟩, times⟩
   refine ⟨?_, ⟨fun e inside => (fit e inside).offset, growing⟩⟩
   intro e inside
   exact ⟨(fit e inside).pathSize, (fit e inside).targetSize, times e inside⟩
 · rintro ⟨each, offsets⟩
   refine ⟨known_schema, ⟨few, ?_, distinct_paths added archived, offsets.growing⟩, ?_⟩
   · intro e inside
     obtain ⟨path, target, -⟩ := each e inside
     exact (fit_fileEntry archived inside).mpr ⟨path, target, offsets.nonneg e inside⟩
   · intro e inside
     exact (each e inside).2.2

def tableArchiver (roots : List (Str × Tree)) : Archiver where
 opts := strictOptions
 format := Tar.tableFormat
  ((addRoots blockArchiver roots newWriter).state.entries.map (headerOf strictOptions))
 sink := fun _ _ => none

def built (roots : List (Str × Tree)) : Effect TarWriter WalkError :=
 addRoots (tableArchiver roots) roots newWriter

def builtClosed (roots : List (Str × Tree)) : Effect TarWriter WalkError :=
 close (tableArchiver roots) (built roots).state

def utc : Time → Int := fun _ => 0

def timeCodec : IndexCodec where
 encode v := if ∀ e ∈ v.list, Encodable utc e.mtime then some [] else none
 members _ := none
 compress text := zstdMagic ++ text
 decompress _ := none

theorem timeCodec_refuses : RefusesTimes timeCodec utc := by
 intro v
 change (∃ text, (if ∀ e ∈ v.list, Encodable utc e.mtime then some [] else none) = some text) ↔ _
 by_cases fine : ∀ e ∈ v.list, Encodable utc e.mtime
 · rw [if_pos fine]
   exact iff_of_true ⟨[], rfl⟩ fine
 · rw [if_neg fine]
   exact iff_of_false (fun ⟨_, none_there⟩ => nomatch none_there) fine

def indexOf (roots : List (Str × Tree)) : Except WriteIndexError Bytes :=
 writeIndex timeCodec idleCipher
  (some ⟨schemaVersion, some (archiveToIndex (builtClosed roots).state.entries)⟩) none

def longName : FileName where
 text := List.replicate 255 97
 ordinary := ⟨by decide, by decide, by decide, by decide⟩
 noNul := by decide

def deep : Nat → Tree
 | 0 => emptyDirectory
 | n + 1 => .node directoryAnswers ⟨[longName], List.nodup_singleton longName⟩ fun _ => deep n

def lateInfo : FileInfo := { directoryInfo with modTime := yearTenThousand }

def late : Tree :=
 .node { directoryAnswers with
   lstat := .ok lateInfo
   opening := .ok ⟨.ok lateInfo, none, [], none, .ok []⟩
   openRoot := .ok (.ok lateInfo) }
  ⟨[], List.nodup_nil⟩ fun _ => nothing

def deepRoots : List (Str × Tree) := [(lit "/srv", deep 16)]

theorem refused_of_long {codec : IndexCodec} {ae : Aead} {schema : Int} {entries : List Entry}
  {sealer : Option KeyedSealer} (long : ∃ e ∈ entries, maxPathBytes < e.path.length) :
  ¬ ∃ blob, writeIndex codec ae (some ⟨schema, some (archiveToIndex entries)⟩) sealer =
  .ok blob := by
 intro accepted
 obtain ⟨-, valid, -⟩ := writeIndex_accepts.mp accepted
 obtain ⟨e, inside, exceeds⟩ := long
 have listed : fileEntry e ∈ archiveToIndex entries := List.mem_map.mpr ⟨e, inside, rfl⟩
 have fit := (validateEntries_ok_iff.mp valid).2.1 (fileEntry e) listed
 exact Nat.not_le_of_lt exceeds fit.pathSize

/-- Two trees that a strict backup archives without an error and whose index is then refused. The
tar package takes a time in year 10000 that JSON does not; and sixteen directories of 255 bytes each
make a path of 4099 bytes, which the walk reaches name by name. -/
theorem built_archives_refused :
  ((built [(lit "/srv", late)]).error = none ∧ (builtClosed [(lit "/srv", late)]).error = none ∧
   (builtClosed [(lit "/srv", late)]).state.entries.length = 1 ∧
   indexOf [(lit "/srv", late)] = .error .encode) ∧
  (addRoots blockArchiver deepRoots newWriter).error = none ∧
   (close blockArchiver (addRoots blockArchiver deepRoots newWriter).state).error = none ∧
   (close blockArchiver (addRoots blockArchiver deepRoots newWriter).state).state.entries.length =
   17 ∧
   ¬ ∃ blob, writeIndex timeCodec idleCipher (some ⟨schemaVersion, some (archiveToIndex
    (close blockArchiver (addRoots blockArchiver deepRoots newWriter).state).state.entries)⟩) none =
     .ok blob := by
 refine ⟨⟨?_, ?_, ?_, ?_⟩, ?_, ?_, ?_, refused_of_long ?_⟩
 all_goals decide +kernel

theorem site_accepted : ∃ blob, indexOf [(lit "/srv", site)] = .ok blob := by
 have added : built [(lit "/srv", site)] = done (built [(lit "/srv", site)]).state :=
  Effect.eq_done (by decide +kernel)
 have closed : builtClosed [(lit "/srv", site)] = done (builtClosed [(lit "/srv", site)]).state :=
  Effect.eq_done (by decide +kernel)
 have few : (builtClosed [(lit "/srv", site)]).state.entries.length ≤ maxIndexEntries := by
  decide +kernel
 refine (writeIndex_accepts_iff (Tar.tableFormat_faithful _) timeCodec_refuses added closed few
  (.inl rfl) idleCipher none).mpr ⟨?_, ?_⟩
 · decide +kernel
 · decide +kernel

end BackImage.Backup.IndexAcceptance
