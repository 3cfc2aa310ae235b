/- source: pkg/recovery/recovery.go, pkg/recovery/partial.go
  digest: The two selective restores agree with each other and, on everything, with StreamTar; and
    what is recovered past damaged chunks. -/

import BackImage.Recovery.SelectedRanges
import BackImage.Recovery.Unlock

namespace BackImage.Recovery.SelectedRestore

open Crypt.Envelope Go.Text Index.Model Lib.Cut RangeWalk SelectedRanges SelectedTar
open StreamTar Unlock
open Go.Tar (trailer)
open Lib.Reading (Script Reader)

variable {pk : Packages} {run : Schedule} {b : Backup} {plains : List Bytes} {verify : Bool}
 {idx : FileIndex}

theorem copyPass_of_readAll {bufs : Nat → Nat} (room : ∀ k, 0 < bufs k) {payload data : Bytes}
  {codec : Codec} {i : Nat} {d : Decompression} (opened : pk.newReader codec payload = .ok d)
  (read : (plainReader b i).readAll ⟨d.body, 0⟩ = .ok data)
  (closed : d.closeErr = none) : copyPass pk b bufs payload codec i = (data, .ok data.length) := by
 rw [Reader.readAll_eq] at read
 unfold copyPass
 simp only [opened]
 rw [Reader.copy_eq _ room]
 cases ends : ((plainReader b i).final
   ⟨d.body, 0⟩).fault with
 | some e => simp [ends] at read
 | none =>
  simp only [ends, Except.ok.injEq] at read
  simp only [read, closed]

theorem streamOneChunk_of_plainChunkBytes {i : Nat} {c : Chunk} {p : Bytes}
  (at_i : b.table.chunks[i]? = some c) (loads : plainChunkBytes pk b i verify = .ok p) :
  streamOneChunk pk run b verify i c = (p, .ok ()) := by
 unfold plainChunkBytes at loads
 cases fetched : plainChunkPayload pk b i with
 | error e => simp [fetched] at loads
 | ok pair =>
  obtain ⟨payload, codec⟩ := pair
  simp only [fetched] at loads
  cases opened : pk.newReader codec payload with
  | error e => simp [opened] at loads
  | ok d =>
   simp only [opened] at loads
   cases read : (plainReader b i).readAll
     ⟨d.body, 0⟩ with
   | error e => simp [read] at loads
   | ok data =>
    simp only [read] at loads
    cases closed : d.closeErr with
    | some e => simp [closed] at loads
    | none =>
     simp only [closed, at_i] at loads
     have pass : ∀ k, copyPass pk b (run.bufs i k) payload codec i =
       (data, .ok data.length) :=
      fun k => copyPass_of_readAll (run.room i k) opened read closed
     split at loads
     · cases loads
     · rename_i size
       split at loads
       · cases loads
       · rename_i digest
         cases loads
         unfold streamOneChunk
         simp only [fetched, pass, if_neg size]
         cases verify with
         | false => rfl
         | true => simpa using digest

theorem streamFrom_ok (calm : ∀ i, run.cancelled i = none) {i : Nat} {rest : List Chunk}
  (split : b.table.chunks.drop i = rest) (lengths : b.table.chunks.length = plains.length)
  (loads : ∀ j p, plains[j]? = some p → plainChunkBytes pk b j verify = .ok p) :
  streamFrom pk run b verify i rest = ((plains.drop i).flatten, .ok ()) := by
 induction rest generalizing i with
 | nil =>
  have past : plains.drop i = [] := by
   rw [List.drop_eq_nil_iff] at split ⊢
   omega
  rw [past]
  rfl
 | cons c rest ih =>
  have at_i : b.table.chunks[i]? = some c := by
   have first := congrArg List.head? split
   simpa [List.head?_drop] using first
  have inside : i < plains.length := by
   rw [← lengths]
   exact (List.getElem?_eq_some_iff.mp at_i).1
  have later : b.table.chunks.drop (i + 1) = rest := by
   rw [← List.drop_drop, split]
   rfl
  have chunk : streamOneChunk pk run b verify i c = (plains[i], .ok ()) :=
   streamOneChunk_of_plainChunkBytes at_i (loads i _ (List.getElem?_eq_getElem inside))
  rw [streamFrom, calm i]
  dsimp only
  rw [chunk]
  dsimp only
  rw [ih later, List.drop_eq_getElem_cons inside]
  rfl

theorem streamTar_ok (calm : ∀ i, run.cancelled i = none) (laid : Laid b plains)
  (loads : ∀ j p, plains[j]? = some p →
   plainChunkBytes pk b j (mustVerify b verify) = .ok p) :
  streamTar pk run b verify = (plains.flatten, .ok ()) :=
 streamFrom_ok calm rfl laid.length_eq loads

section Restore

variable {selected : List FileEntry}

def NeededLoad (pk : Packages) (b : Backup) (plains : List Bytes) (idx : FileIndex)
  (selected : List FileEntry) (verify : Bool) : Prop :=
 ∀ i p, Needed plains (selectionSet idx selected) idx.entries i → plains[i]? = some p →
  plainChunkBytes pk b i (mustVerify b verify) = .ok p

theorem neededLoad_loadsAs (loads : NeededLoad pk b plains idx selected verify) :
  LoadsAs pk b (mustVerify b verify) plains (fun _ => true)
   (Needed plains (selectionSet idx selected) idx.entries) :=
 fun i p needed at_i => .inl ⟨rfl, loads i p needed at_i⟩

theorem streamSelectedTar_ok (laid : Laid b plains)
  (ranged : Ranged (contentLength plains.flatten) idx.entries)
  (loads : NeededLoad pk b plains idx selected verify) :
  streamSelectedTar pk b (some idx) selected verify =
   (selectedBytes plains.flatten (selectionSet idx selected) idx.entries ++ trailer, .ok ()) := by
 obtain ⟨ranges, collected, sound, bytes, covered⟩ :=
  @collectRanges_ok b plains (selectionSet idx selected) laid idx.entries ranged [] (by simp)
 have inside : ∀ i, (∃ x ∈ ranges, ∃ p, Covers x p ∧ Lib.Cut.start plains i ≤ p ∧
   p < Lib.Cut.start plains (i + 1)) → Needed plains (selectionSet idx selected) idx.entries i := by
  rintro i ⟨x, member, p, covers, inChunk⟩
  rcases covered x member p covers with ⟨y, nothing, -⟩ | ⟨y, listed, wanted, low, high⟩
  · cases nothing
  · exact ⟨y, listed, wanted, p, low, high, inChunk⟩
 obtain ⟨out, s', outcome, written, complete, whole, -⟩ :=
  writeRanges_spec laid sound (loadStrict_answers (neededLoad_loadsAs loads)) inside
   (cached_of_none (rfl : Loader.start.cached = none))
 have done := complete fun _ _ => rfl
 unfold streamSelectedTar
 dsimp only
 rw [collected]
 dsimp only
 rw [written, done, whole done, bytes]
 rfl

theorem kept_of_undamaged (wanted : List Str) (x : Span) :
  (asked (some wanted) x.entry.path && readable plains (fun _ => true) x) =
   decide (x.entry.path ∈ wanted) := by
 have whole : readable plains (fun _ => true) x = true := readable_iff.mpr fun _ _ => rfl
 rw [whole, Bool.and_true]
 simp [asked]

theorem streamSelectedTarPartial_ok (calm : ∀ i, run.cancelled i = none) (laid : Laid b plains)
  (ranged : Ranged (contentLength plains.flatten) idx.entries)
  (loads : NeededLoad pk b plains idx selected verify) :
  ∃ report, streamSelectedTarPartial pk run b (some idx) selected verify =
   (selectedBytes plains.flatten (selectionSet idx selected) idx.entries ++ trailer, report,
    .ok ()) := by
 have inside : ∀ x ∈ spans (contentLength plains.flatten) idx.entries,
   asked (some (selectionSet idx selected)) x.entry.path = true →
   ∀ i, Touches plains x.first x.stop i →
    Needed plains (selectionSet idx selected) idx.entries i := by
  intro x listed asks i touches
  exact ⟨x, listed, by simpa [asked] using asks, touches⟩
 obtain ⟨out, s', report, outcome, k, ran, -, -, salvaged, calmly, done⟩ :=
  @partialFrom_spec b plains (fun _ => true) (some (selectionSet idx selected)) _ _ _ _ run laid
   idx.entries 0 Loader.start PartialReport.empty ranged
   (loadTolerant_marks (neededLoad_loadsAs loads)) inside recorded_start
 have fin := calmly calm
 have bytes := salvaged.bytes
 have all : (spans (contentLength plains.flatten) idx.entries).take k =
   spans (contentLength plains.flatten) idx.entries := by
  rw [done fin]
  exact List.take_of_length_le (length_spans _ _).le
 rw [all] at bytes
 simp only [kept_of_undamaged] at bytes
 unfold streamSelectedTarPartial streamTarPartial
 dsimp only
 rw [ran, fin, bytes]
 exact ⟨_, rfl⟩

theorem selectedBytes_all {stream : Bytes} {wanted : List Str} {entries : List FileEntry}
  (ranged : Ranged (contentLength stream) entries) (every : ∀ e ∈ entries, e.path ∈ wanted) :
  selectedBytes stream wanted entries =
   slice stream (rangeEnd (contentLength stream) entries).toNat (contentLength stream) := by
 induction entries with
 | nil => simp [selectedBytes, spans, rangeEnd]
 | cons e rest ih =>
  obtain ⟨low, filled, high, later⟩ := ranged
  have tail := ih later fun e' member => every e' (by simp [member])
  unfold selectedBytes at tail ⊢
  rw [spans, List.filter_cons_of_pos (by simp [every]), List.flatMap_cons, tail]
  exact slice_append stream (by dsimp only; omega) (by dsimp only; omega)

theorem path_mem_selectionSet {e : FileEntry} (member : e ∈ selected) :
  e.path ∈ selectionSet idx selected := by
 refine subset_selectionSet idx ?_
 unfold selectedPaths
 exact List.mem_append_right _ (List.mem_map_of_mem member)

/-- Whatever the chunking, both selective restores write the records of the selection and a fresh
trailer; with everything selected that is the stream itself, as `StreamTar` writes it. -/
theorem selective_restores_exact (calm : ∀ i, run.cancelled i = none) (laid : Laid b plains)
  (ranged : Ranged (contentLength plains.flatten) idx.entries)
  (loads : NeededLoad pk b plains idx selected verify) :
  let records := selectedBytes plains.flatten (selectionSet idx selected) idx.entries
  streamSelectedTar pk b (some idx) selected verify = (records ++ trailer, .ok ()) ∧
   (∃ report, streamSelectedTarPartial pk run b (some idx) selected verify =
    (records ++ trailer, report, .ok ())) ∧
   ((∀ e ∈ idx.entries, e ∈ selected) → rangeEnd (contentLength plains.flatten) idx.entries = 0 →
    (∃ front, plains.flatten = front ++ trailer) →
    records ++ trailer = plains.flatten ∧
     ((∀ i p, plains[i]? = some p → plainChunkBytes pk b i (mustVerify b verify) = .ok p) →
      streamTar pk run b verify = (records ++ trailer, .ok ()))) := by
 refine ⟨streamSelectedTar_ok laid ranged loads, streamSelectedTarPartial_ok calm laid ranged loads,
  ?_⟩
 intro every first ends
 obtain ⟨front, whole⟩ := ends
 have size : contentLength plains.flatten = front.length := by
  rw [contentLength, whole, List.length_append, trailer, Go.Tar.zeros, List.length_replicate,
   if_pos (by omega)]
  omega
 have records : selectedBytes plains.flatten (selectionSet idx selected) idx.entries = front := by
  rw [selectedBytes_all ranged fun e member => path_mem_selectionSet (every e member), first, size,
   whole]
  simp [slice]
 rw [records, ← whole]
 exact ⟨rfl, streamTar_ok calm laid⟩

end Restore

def threePlains : List Bytes := [lit "hea", [], lit "der" ++ trailer]

def threeChunkBackup : Backup :=
 storedBackup (fun i => .ok (threePlains.getD i []))
  [⟨0, lit "blob", [], [], 3, 3⟩, ⟨1, lit "blob", [], [], 0, 0⟩,
   ⟨2, lit "blob", [], [], 1027, 1027⟩]

def recordAt (path : Str) (offset : Int64) : FileEntry :=
 { (default : FileEntry) with path := path, tarOffset := offset }

def twoRecords : FileIndex := ⟨1, [recordAt (lit "a") 0, recordAt (lit "b") 2]⟩

theorem laid_threeChunkBackup : Laid threeChunkBackup threePlains :=
 ⟨rfl, by decide +kernel, by decide +kernel⟩

theorem loads_threeChunkBackup (i : Nat) (p : Bytes) (at_i : threePlains[i]? = some p) :
  plainChunkBytes storePackages threeChunkBackup i (mustVerify threeChunkBackup false) =
   .ok p := by
 match i with
 | 0 => cases at_i; decide +kernel
 | 1 => cases at_i; decide +kernel
 | 2 => cases at_i; decide +kernel
 | i + 3 => cases at_i

theorem second_record_restored :
  streamSelectedTar storePackages threeChunkBackup (some twoRecords) [recordAt (lit "b") 2] false =
    (lit "ader" ++ trailer, .ok ()) ∧
   ∃ report, streamSelectedTarPartial storePackages calmSchedule threeChunkBackup
    (some twoRecords) [recordAt (lit "b") 2] false = (lit "ader" ++ trailer, report, .ok ()) := by
 have ranged : Ranged (contentLength threePlains.flatten) twoRecords.entries :=
  ⟨by decide +kernel, by decide +kernel, by decide +kernel, by decide +kernel, by decide +kernel,
   by decide +kernel, trivial⟩
 have records : selectedBytes threePlains.flatten
   (selectionSet twoRecords [recordAt (lit "b") 2]) twoRecords.entries = lit "ader" := by
  decide +kernel
 obtain ⟨whole, tolerant, -⟩ :=
  selective_restores_exact (fun _ => rfl : ∀ i, calmSchedule.cancelled i = none)
  laid_threeChunkBackup ranged
  (fun i p _ => loads_threeChunkBackup i p : NeededLoad storePackages threeChunkBackup
   threePlains twoRecords [recordAt (lit "b") 2] false)
 rw [records] at whole tolerant
 exact ⟨whole, tolerant⟩

section Report

variable {ok : Nat → Bool}

def partialReads (pk : Packages) (run : Schedule) (b : Backup) (idx : FileIndex)
  (wanted : Option (List Str)) (verify : Bool) : List Nat :=
 (partialFrom b (loadTolerant pk b (mustVerify b verify)) run wanted (contentEnd b) 0 idx.entries
  Loader.start PartialReport.empty).2.1.reads

def kept (plains : List Bytes) (ok : Nat → Bool) (idx : FileIndex) (wanted : Option (List Str)) :
  List Span :=
 (spans (contentLength plains.flatten) idx.entries).filter fun x =>
  asked wanted x.entry.path && readable plains ok x

def lost (plains : List Bytes) (ok : Nat → Bool) (idx : FileIndex) (wanted : Option (List Str)) :
  List Span :=
 (spans (contentLength plains.flatten) idx.entries).filter fun x =>
  asked wanted x.entry.path && !readable plains ok x

/-- The report tells the damage: sorted chunks that do not load, among them the first of each entry
left out, and for each of them one cause and one attempt. -/
structure Tells (pk : Packages) (b : Backup) (verify : Bool) (plains : List Bytes) (ok : Nat → Bool)
  (left : List Span) (reads : List Nat) (report : PartialReport) : Prop where
 sorted : report.badChunks.Pairwise (· < ·)
 bad : ∀ i ∈ report.badChunks, i < plains.length ∧ ok i = false
 blamed : ∀ x ∈ left, ∃ i ∈ report.badChunks, FirstBad plains ok x.first x.stop i
 caused : ∃ order, order.Perm report.badChunks ∧
  List.Forall₂ (fun i e => plainChunkBytes pk b i verify = .error e) order report.causes
 once : ∀ i ∈ report.badChunks, reads.count i = 1

/-- With chunks that load as their plaintexts or fail, a recovery that is not cancelled writes the
whole record of each wanted entry that meets no failing chunk, nothing of the others, and a fresh
trailer, and reports exactly that. -/
theorem partial_recovery_exact (calm : ∀ i, run.cancelled i = none) (laid : Laid b plains)
  (ranged : Ranged (contentLength plains.flatten) idx.entries)
  (loads : LoadsAs pk b (mustVerify b verify) plains ok fun _ => True)
  (wanted : Option (List Str)) : ∃ report,
   streamTarPartial pk run b (some idx) wanted verify =
    ((kept plains ok idx wanted).flatMap (Span.bytes plains.flatten) ++ trailer, report, .ok ()) ∧
   report.entries = (kept plains ok idx wanted).length ∧
   report.skipped = (lost plains ok idx wanted).length ∧
   Tells pk b (mustVerify b verify) plains ok (lost plains ok idx wanted)
    (partialReads pk run b idx wanted verify) report := by
 obtain ⟨out, s, report, outcome, k, ran, recorded, -, salvaged, calmly, done⟩ :=
  @partialFrom_spec b plains ok wanted _ _ _ _ run laid idx.entries 0 Loader.start
   PartialReport.empty ranged (loadTolerant_marks loads) (fun _ _ _ _ _ => trivial)
   (recorded_start : Recorded pk b (mustVerify b verify) plains.length Loader.start)
 have fin := calmly calm
 have all : (spans (contentLength plains.flatten) idx.entries).take k =
   spans (contentLength plains.flatten) idx.entries := by
  rw [done fin]
  exact List.take_of_length_le (length_spans _ _).le
 rw [all] at salvaged
 have reads : partialReads pk run b idx wanted verify = s.reads := by
  unfold partialReads
  rw [ran]
 have perm : (s.bad.mergeSort (· ≤ ·)).Perm s.bad := List.mergeSort_perm _ _
 refine ⟨{ report with causes := s.causes, badChunks := s.bad.mergeSort (· ≤ ·) }, ?_, ?_, ?_, ?_⟩
 · unfold streamTarPartial
   dsimp only
   rw [ran, fin, salvaged.bytes]
   rfl
 · exact salvaged.entries.trans (Nat.zero_add _)
 · exact salvaged.skipped.trans (Nat.zero_add _)
 · refine ⟨?_, ?_, ?_, ⟨s.bad, perm.symm, recorded.caused⟩, ?_⟩
   · have ordered : (s.bad.mergeSort (· ≤ ·)).Pairwise (· ≤ ·) := by
      simpa using @List.pairwise_mergeSort Nat (fun x y => decide (x ≤ y))
       (by intro x y z; simp; omega) (by intro x y; simp; omega) s.bad
     have distinct : (s.bad.mergeSort (· ≤ ·)).Nodup := perm.nodup_iff.mpr recorded.nodup
     exact ordered.imp₂ (fun x y le ne => lt_of_le_of_ne le ne) distinct
   · intro i member
     have bad := perm.mem_iff.mp member
     have inside := recorded.inside i bad
     obtain ⟨e, failed⟩ := recorded.error bad
     rcases loads i _ trivial (List.getElem?_eq_getElem inside) with ⟨-, loaded⟩ | ⟨damaged, -⟩
     · rw [failed] at loaded
       cases loaded
     · exact ⟨inside, damaged⟩
   · intro x member
     obtain ⟨listed, left⟩ := List.mem_filter.mp member
     rw [Bool.and_eq_true, Bool.not_eq_true'] at left
     obtain ⟨i, first, mark⟩ := salvaged.blamed x listed left.1 left.2
     exact ⟨i, perm.mem_iff.mpr mark, first⟩
   · intro i member
     rw [reads]
     exact recorded.once i (perm.mem_iff.mp member)

end Report

def fourPlains : List Bytes := [lit "aab", lit "bcc", lit "ddd" ++ trailer]

def lostChunkBackup : Backup :=
 storedBackup (fun i => if i = 1 then .error (lit "lost") else .ok (fourPlains.getD i []))
  [⟨0, lit "blob", [], [], 3, 3⟩, ⟨1, lit "blob", [], [], 3, 3⟩,
   ⟨2, lit "blob", [], [], 1027, 1027⟩]

def fourEntries : FileIndex :=
 ⟨1, [recordAt (lit "a") 0, recordAt (lit "b") 2, recordAt (lit "c") 4, recordAt (lit "d") 6]⟩

theorem loads_lostChunkBackup : LoadsAs storePackages lostChunkBackup
  (mustVerify lostChunkBackup false) fourPlains (· ≠ 1) fun _ => True := by
 intro i p _ at_i
 match i with
 | 0 => cases at_i; exact .inl ⟨rfl, by decide +kernel⟩
 | 1 => exact .inr ⟨rfl, _, rfl⟩
 | 2 => cases at_i; exact .inl ⟨rfl, by decide +kernel⟩
 | i + 3 => cases at_i

/-- The two entries that meet the lost chunk are left out, and the chunk is tried once. -/
theorem entries_around_lost_chunk : ∃ report,
   streamTarPartial storePackages calmSchedule lostChunkBackup (some fourEntries) none false =
    (lit "aaddd" ++ trailer, report, .ok ()) ∧
   report.entries = 2 ∧ report.skipped = 2 ∧
   Tells storePackages lostChunkBackup (mustVerify lostChunkBackup false) fourPlains (· ≠ 1)
    (lost fourPlains (· ≠ 1) fourEntries none)
    (partialReads storePackages calmSchedule lostChunkBackup fourEntries none false) report := by
 have laid : Laid lostChunkBackup fourPlains := ⟨rfl, by decide +kernel, by decide +kernel⟩
 have ranged : Ranged (contentLength fourPlains.flatten) fourEntries.entries :=
  ⟨by decide +kernel, by decide +kernel, by decide +kernel, by decide +kernel, by decide +kernel,
   by decide +kernel, by decide +kernel, by decide +kernel, by decide +kernel, by decide +kernel,
   by decide +kernel, by decide +kernel, trivial⟩
 obtain ⟨report, ran, entries, skipped, tells⟩ := partial_recovery_exact
  (fun _ => rfl : ∀ i, calmSchedule.cancelled i = none) laid ranged loads_lostChunkBackup none
 have records : (kept fourPlains (· ≠ 1) fourEntries none).flatMap (Span.bytes fourPlains.flatten) =
   lit "aaddd" := by
  decide +kernel
 rw [records] at ran
 refine ⟨report, ran, entries.trans ?_, skipped.trans ?_, tells⟩
 · decide +kernel
 · decide +kernel

end BackImage.Recovery.SelectedRestore
