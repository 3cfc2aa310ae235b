/- source: pkg/archive/writer.go, pkg/backup/pipeline.go, pkg/recovery/recovery.go
  digest: A selective restore of an archived tree is its archive without the records left out. -/

import BackImage.Archive.ChangingFiles
import BackImage.Index.Entries
import BackImage.Recovery.ImageReads

namespace BackImage.Recovery.ArchiveRestore

open Archive.ChangingFiles Archive.Layout Archive.Writer Index.Entries Go Go.Text Index.CutTables
open Index.Model Lib.Sequence Lib.Wrap ImageReads SelectedRanges SelectedTar
open StreamTar Unlock
open Go.Tar (trailer)
open Lib.Cut (slice)

section Records

variable {ar : Archiver} {records : List Record} {t : Tar.Output} {start content : Nat}

/-- The bytes of a record: its header, its content and the padding behind. -/
def recordBytes (ar : Archiver) (r : Record) : Bytes :=
 match ar.format.encode (headerOf ar.opts r.1) with
 | .error _ => []
 | .ok blocks => blocks ++ r.2 ++ Tar.zeros (Tar.padding (headerOf ar.opts r.1).payload)

theorem out_laid (laid : Laid ar records t) :
  t.out ++ Tar.zeros t.pad = records.flatMap (recordBytes ar) := by
 induction laid with
 | nil => rfl
 | @snoc records t e content blocks before complete offset fits encoded digest bare ih =>
  rw [List.flatMap_append, ← ih, List.flatMap_singleton, recordBytes, encoded]
  simp only [List.append_assoc]

/-- The records stand one behind the other from a position on, and their entries say so. -/
def Placed (ar : Archiver) : Nat → List Record → Prop
 | _, [] => True
 | start, r :: rest =>
  r.1.tarOffset.toInt = start ∧ 0 < (recordBytes ar r).length ∧
   Placed ar (start + (recordBytes ar r).length) rest

theorem placed_snoc {r : Record} : Placed ar start (records ++ [r]) ↔ Placed ar start records ∧
   r.1.tarOffset.toInt = (start + (records.flatMap (recordBytes ar)).length : Nat) ∧
   0 < (recordBytes ar r).length := by
 induction records generalizing start with
 | nil => simp [Placed]
 | cons first rest ih =>
  rw [List.cons_append, Placed, Placed, ih, List.flatMap_cons, List.length_append, Nat.add_assoc]
  tauto

theorem placed_laid (faithful : ar.format.Faithful) (laid : Laid ar records t)
  (complete : t.left = 0)
  (small : ((records.flatMap (recordBytes ar)).length : Int) < bound) : Placed ar 0 records := by
 induction laid with
 | nil => trivial
 | @snoc records t e content blocks before whole offset fits encoded digest bare ih =>
  rw [List.flatMap_append, List.length_append] at small
  -- the recorded offset is rounded up to a block, where the padding of the record before ends
  have between := between_laid faithful before whole
  have filled := faithful.filled encoded
  have position := congrArg List.length (out_laid before)
  rw [List.length_append, Tar.zeros, List.length_replicate] at position
  refine placed_snoc.mpr ⟨ih whole (by omega), ?_, ?_⟩
  · rw [offset, nextHeader_ofNat between.small between.whole, position,
     toInt_ofNat_of_lt (by omega), Nat.zero_add]
  · simp only [recordBytes, encoded, List.length_append]
    omega

theorem ranged_placed (placed : Placed ar start records)
  (total : content = start + (records.flatMap (recordBytes ar)).length) :
  rangeEnd content (archiveToIndex (records.map Prod.fst)) = start ∧
   Ranged content (archiveToIndex (records.map Prod.fst)) := by
 induction records generalizing start with
 | nil => exact ⟨congrArg Nat.cast total, trivial⟩
 | cons r rest ih =>
  obtain ⟨here, filled, later⟩ := placed
  rw [List.flatMap_cons, List.length_append] at total
  obtain ⟨ends, ranged⟩ := ih later (by omega)
  have first : (fileEntry r.1).tarOffset.toInt = start := here
  refine ⟨first, ?_, ?_, ?_, ranged⟩
  · rw [first]
    exact Int.natCast_nonneg _
  · change _ < rangeEnd content (archiveToIndex (rest.map Prod.fst))
    omega
  · change rangeEnd content (archiveToIndex (rest.map Prod.fst)) ≤ _
    omega

theorem selected_placed (front tail : Bytes) (wanted : List Str)
  (placed : Placed ar front.length records)
  (total : content = front.length + (records.flatMap (recordBytes ar)).length) :
  ((spans content (archiveToIndex (records.map Prod.fst))).filter (·.entry.path ∈ wanted)).flatMap
    (Span.bytes (front ++ records.flatMap (recordBytes ar) ++ tail)) =
   (records.filter (·.1.path ∈ wanted)).flatMap (recordBytes ar) := by
 -- the records passed over go into `front`, which keeps the stream the same
 induction records generalizing front with
 | nil => rfl
 | cons r rest ih =>
  obtain ⟨here, filled, later⟩ := placed
  rw [List.flatMap_cons, List.length_append] at total
  have regroup : front ++ (r :: rest).flatMap (recordBytes ar) ++ tail =
    front ++ recordBytes ar r ++ rest.flatMap (recordBytes ar) ++ tail := by
   rw [List.flatMap_cons]
   simp only [List.append_assoc]
  have first : (fileEntry r.1).tarOffset.toInt = front.length := here
  have stop : rangeEnd content (archiveToIndex (rest.map Prod.fst)) =
   (front.length + (recordBytes ar r).length : Nat) :=
   (ranged_placed later (by omega)).1
  have shape : spans content (archiveToIndex ((r :: rest).map Prod.fst)) =
    ⟨fileEntry r.1, front.length, front.length + (recordBytes ar r).length⟩ ::
     spans content (archiveToIndex (rest.map Prod.fst)) := by
   change Span.mk _ (fileEntry r.1).tarOffset.toInt.toNat
    (rangeEnd content (archiveToIndex (rest.map Prod.fst))).toNat :: _ = _
   rw [first, stop, Int.toNat_natCast, Int.toNat_natCast]
   rfl
  have own : slice (front ++ recordBytes ar r ++ rest.flatMap (recordBytes ar) ++ tail) front.length
    (front.length + (recordBytes ar r).length) = recordBytes ar r := by
   rw [slice, Nat.add_sub_cancel_left, List.append_assoc, List.append_assoc, List.drop_left,
    List.take_left]
  have others := ih (front ++ recordBytes ar r) (by rwa [List.length_append])
   (by rw [List.length_append]; omega)
  have path : (fileEntry r.1).path = r.1.path := rfl
  rw [regroup, shape, List.filter_cons, List.filter_cons]
  by_cases chosen : r.1.path ∈ wanted
  · simp only [path, chosen, decide_true, if_true, List.flatMap_cons, others]
    exact congrArg (· ++ _) own
  · simp only [path, chosen, decide_false, Bool.false_eq_true, if_false, others]

end Records

section Restore

variable {ar : Archiver} {roots : List (Str × Tree)} {added closed : TarWriter} {pk : Packages}
 {b : Backup}
 {idx : FileIndex} {data : List Bytes}

/-- Of a backup that restores the archive of some trees, a selection restores as the archive with
only the records of the selected paths, byte for byte and in their order. -/
theorem selection_restores_records (faithful : ar.format.Faithful)
  (adds : addRoots ar roots newWriter = done added)
  (closes : close ar added = done closed) (small : (closed.tw.out.length : Int) < bound)
  (fed : data.flatten = closed.tw.out) (listed : idx.entries = archiveToIndex closed.entries)
  (restores : Restores pk b data) : ∃ records : List Record, records.map Prod.fst = closed.entries ∧
   closed.tw.out = records.flatMap (recordBytes ar) ++ trailer ∧
   ∀ selected verify, streamSelectedTar pk b (some idx) selected verify =
    ((records.filter (·.1.path ∈ selectionSet idx selected)).flatMap (recordBytes ar) ++ trailer,
     .ok ()) := by
 obtain ⟨records, archived⟩ := archived_addRoots adds
 obtain ⟨tw, ended, rfl⟩ := within_eq_done.mp closes
 obtain ⟨complete, out⟩ := Tar.close_eq_done ended
 rw [out_laid archived.laid] at out
 have stream : tw.out = records.flatMap (recordBytes ar) ++ trailer := out
 have entries : idx.entries = archiveToIndex (records.map Prod.fst) := by
  rw [← archived.entries]
  exact listed
 change data.flatten = tw.out at fed
 change (tw.out.length : Int) < bound at small
 rw [stream] at fed small
 have content : contentLength data.flatten = (records.flatMap (recordBytes ar)).length := by
  rw [fed, contentLength, List.length_append, trailer, Tar.zeros, List.length_replicate,
   if_pos (by omega), Nat.add_sub_cancel]
 rw [List.length_append] at small
 have placed := placed_laid faithful archived.laid complete (by omega)
 refine ⟨records, archived.entries.symm, stream, ?_⟩
 intro selected verify
 have ranged : Ranged (contentLength data.flatten) idx.entries := by
  rw [entries, content]
  exact (ranged_placed placed (Nat.zero_add _).symm).2
 have chosen := selected_placed [] trailer (selectionSet idx selected) placed
  (content.trans (Nat.zero_add _).symm)
 rw [List.nil_append, ← fed] at chosen
 rw [restores.selected idx selected verify ranged, selectedBytes, entries, chosen]

end Restore

def bareChunk (data : Bytes) : StoredChunk :=
 ⟨⟨0, Int64.ofNat data.length, Go.Sha256.sum256 data, data⟩, data⟩

def bareBackup (data : Bytes) : Backup :=
 storedBackup (fun _ => .ok data) ([[bareChunk data]].flatMap layerRows)

theorem restores_bareBackup {data : Bytes} (small : (data.length : Int) < bound) :
  Restores storePackages (bareBackup data) [data] := by
 have image : Image (bareBackup data) [[bareChunk data]] := by
  refine ⟨rfl, rfl, by simp, List.nodup_singleton _, ?_, ?_⟩
  · rw [show layerContent [[bareChunk data]].flatten = data from List.append_nil data]
    exact small
  · rintro (_ | i) c at_i
    · cases at_i
      rfl
    · cases at_i
 have genuine : ∀ c ∈ [[bareChunk data]].flatten, Genuine c.plain := by
  rintro c (_ | ⟨_, ⟨⟩⟩)
  exact ⟨rfl, rfl⟩
 have stored : ∀ c ∈ [[bareChunk data]].flatten,
   storedOf ⟨fun _ d => .ok d, none⟩ c.plain = .ok c.stored := by
  rintro c (_ | ⟨_, ⟨⟩⟩)
  rfl
 have undoes : Undoes storePackages .store fun _ d => .ok d := by
  rintro _ d _ ⟨⟩
  exact ⟨_, rfl, Lib.Reading.Script.content_ofList d, rfl, rfl⟩
 refine image.restores genuine ?_ stored undoes ?_
 · rw [show ([[bareChunk data]].flatten.map fun c => c.plain.data).flatten =
    data from List.append_nil data]
   exact small
 · rintro (_ | i) c compressed at_i ⟨⟩
   · cases at_i
     unfold plainChunkPayload
     rw [image.storedChunk rfl]
     rfl
   · cases at_i

theorem second_log_restored : ∃ closed : TarWriter, ∃ records : List Record,
   close logArchiver (addRoots logArchiver (logRoots (lit "abc")) newWriter).state = done closed ∧
   records.map Prod.fst = closed.entries ∧
   closed.tw.out = records.flatMap (recordBytes logArchiver) ++ trailer ∧
   streamSelectedTar storePackages (bareBackup closed.tw.out)
   (some ⟨1, archiveToIndex closed.entries⟩)
    (archiveToIndex closed.entries.tail) true =
    ((records.drop 1).flatMap (recordBytes logArchiver) ++ trailer, .ok ()) := by
 let added := addRoots logArchiver (logRoots (lit "abc")) newWriter
 have adds : added = done added.state := Effect.eq_done (by decide +kernel)
 have closes : close logArchiver added.state = done (close logArchiver added.state).state :=
  Effect.eq_done (by decide +kernel)
 generalize final : (close logArchiver added.state).state = closed at closes
 have small : (closed.tw.out.length : Int) < bound := by
  rw [← final]
  decide +kernel
 have listed : (⟨1, archiveToIndex closed.entries⟩ : FileIndex).entries =
  archiveToIndex closed.entries := rfl
 obtain ⟨records, entries, out, selects⟩ :=
  selection_restores_records (Tar.tableFormat_faithful logHeaders) adds closes
  small (List.append_nil _) listed (restores_bareBackup small)
 have paths : records.map (fun r => r.1.path) = [lit "a", lit "b"] := by
  have both : closed.entries.map Entry.path = [lit "a", lit "b"] := by
   rw [← final]
   decide +kernel
  rwa [← entries, List.map_map] at both
 have chosen : selectionSet ⟨1, archiveToIndex closed.entries⟩
   (archiveToIndex closed.entries.tail) = [lit "b"] := by
  rw [← final]
  decide +kernel
 refine ⟨closed, records, closes, entries, out, ?_⟩
 obtain ⟨first, rest, rfl, a, more⟩ := List.map_eq_cons_iff.mp paths
 obtain ⟨second, rest, rfl, b, none_left⟩ := List.map_eq_cons_iff.mp more
 have other : lit "a" ≠ lit "b" := by decide
 rw [selects, chosen, List.map_eq_nil_iff.mp none_left]
 simp [a, b, other]

end BackImage.Recovery.ArchiveRestore
