/- source: pkg/recovery/recovery.go, pkg/recovery/partial.go
  digest: The paths a selection carries, all that its members need, and the two selective
    restores. -/

import BackImage.Go.Path
import BackImage.Go.Tar
import BackImage.Index.Model
import BackImage.Lib.Saturate
import BackImage.Lib.Search
import BackImage.Recovery.StreamTar
import Mathlib.Data.Set.Basic
import Mathlib.Order.Bounds.Basic

namespace BackImage.Recovery.SelectedTar

open Go.Path Go.Sha256 Go.Text Index.Model Lib.Reading Lib.Saturate Lib.Search
open StreamTar Unlock
open Go.Tar (trailer)

def hardlinkRules (entries : List FileEntry) : List (Rule Str) :=
 entries.filterMap fun e => if e.type = .hard then some ⟨e.path, e.linkTarget⟩ else none

def selectedPaths (selected : List FileEntry) : List Str :=
 selected.flatMap (fun e => dirs e.path) ++ selected.map FileEntry.path

def selectionSet (idx : FileIndex) (selected : List FileEntry) : List Str :=
 saturate (hardlinkRules idx.entries) (idx.entries.length + 1) (selectedPaths selected)

theorem subset_selectionSet (idx : FileIndex) {selected : List FileEntry} {p : Str}
  (member : p ∈ selectedPaths selected) : p ∈ selectionSet idx selected :=
 (saturate_suffix _ _ _).subset member

theorem length_missing_links (idx : FileIndex) (selected : List FileEntry) :
  (missing (hardlinkRules idx.entries) (selectedPaths selected)).length ≤ idx.entries.length := by
 have rules := length_missing_le (hardlinkRules idx.entries) (selectedPaths selected)
 have entries : (hardlinkRules idx.entries).length ≤ idx.entries.length :=
  List.length_filterMap_le _ _
 omega

theorem target_mem_selectionSet {idx : FileIndex} {selected : List FileEntry} {e : FileEntry}
  (inIndex : e ∈ idx.entries) (link : e.type = .hard)
  (wanted : e.path ∈ selectionSet idx selected) :
  e.linkTarget ∈ selectionSet idx selected := by
 have few := length_missing_links idx selected
 refine saturate_closed (Nat.lt_succ_of_le few) ⟨e.path, e.linkTarget⟩ ?_ wanted
 exact List.mem_filterMap.mpr ⟨e, inIndex, by rw [if_pos link]⟩

theorem selectionSet_least {idx : FileIndex} {selected : List FileEntry} {s : Str → Prop}
  (start : ∀ p ∈ selectedPaths selected, s p)
  (links : ∀ e ∈ idx.entries, e.type = .hard → s e.path → s e.linkTarget) :
  ∀ p ∈ selectionSet idx selected, s p := by
 refine saturate_least ?_ start
 intro r member triggered
 obtain ⟨e, inIndex, is⟩ := List.mem_filterMap.mp member
 by_cases link : e.type = .hard
 · rw [if_pos link] at is
   cases is
   exact links e inIndex link triggered
 · rw [if_neg link] at is
   cases is

def plainChunkBytes (pk : Packages) (b : Backup) (i : Nat) (verify : Bool) :
  Except ChunkError Bytes :=
 match plainChunkPayload pk b i with
 | .error e => .error e
 | .ok (payload, codec) =>
  match pk.newReader codec payload with
  | .error e => .error (.decompressor i e)
  | .ok d =>
   match (plainReader b i).readAll ⟨d.body, 0⟩ with
   | .error e => .error (.reading i e)
   | .ok data =>
    match d.closeErr with
    | some e => .error (.close i e)
    | none =>
     match b.table.chunks[i]? with
     | none => .error (.outOfRange i)
     | some c =>
      if (data.length : Int) ≠ c.pb.toInt then
       .error (.plainSize i data.length c.pb)
      else if verify ∧ digestMatches c.ps (sum256 data) = false then
       .error (.plainDigest i)
      else .ok data

/-- What the `load` closures keep: one plaintext, how many chunks were read, and the damage; `reads`
are the chunks `plainChunkBytes` was called for. -/
structure Loader where
 cached : Option (Nat × Bytes)
 used : Nat
 bad : List Nat
 causes : List ChunkError
 reads : List Nat

def Loader.start : Loader := ⟨none, 0, [], [], []⟩

def Loader.reading (s : Loader) (i : Nat) : Loader :=
 { s with cached := none, used := s.used + 1, reads := s.reads ++ [i] }

inductive LoadError
 | chunk (cause : ChunkError)
 | knownBad (i : Nat)
 deriving DecidableEq

abbrev Load := Loader → Nat → Loader × Except LoadError Bytes

def loadStrict (pk : Packages) (b : Backup) (verify : Bool) : Load := fun s i =>
 if s.cached.any (·.1 = i) then (s, .ok (s.cached.elim [] Prod.snd))
 else
  match plainChunkBytes pk b i verify with
  | .error e => (s.reading i, .error (.chunk e))
  | .ok data => ({ s.reading i with cached := some (i, data) }, .ok data)

def loadTolerant (pk : Packages) (b : Backup) (verify : Bool) : Load := fun s i =>
 if s.cached.any (·.1 = i) then (s, .ok (s.cached.elim [] Prod.snd))
 else if i ∈ s.bad then (s, .error (.knownBad i))
 else
  match plainChunkBytes pk b i verify with
  | .error e =>
   ({ s.reading i with bad := s.bad ++ [i], causes := s.causes ++ [e] }, .error (.chunk e))
  | .ok data => ({ s.reading i with cached := some (i, data) }, .ok data)

inductive WalkError
 | outside (off : Int64)
 | load (cause : LoadError)
 | uncovered (i : Nat) (off : Int64)
 | sliceBounds
 deriving DecidableEq

def sliceOf (data : Bytes) (start n : Int64) : Option Bytes :=
 if 0 ≤ start ∧ start + n ≤ Int64.ofNat data.length then
  some ((data.drop start.toNatClampNeg).take n.toNatClampNeg)
 else none

def chunkAt (prefixSum : List Int64) (count : Nat) (off : Int64) : Nat :=
 search count fun i => off < prefixSum.getD (i + 1) 0

def clip (n remaining : Int64) : Int64 := if remaining < n then remaining else n

/-- The loop of `walkRange`, the same one `StreamSelectedTar` has in line: the pieces it hands on,
and the outcome. Every turn advances, so that `stop - off` turns are enough. -/
def walk (prefixSum : List Int64) (count : Nat) (load : Load) (stop : Int64) :
  Nat → Int64 → Loader → Bytes × Loader × Except WalkError Unit
 | 0, _, s => ([], s, .ok ())
 | fuel + 1, off, s =>
  if off < stop then
   let i := chunkAt prefixSum count off
   if count ≤ i then ([], s, .error (.outside off))
   else
    match load s i with
    | (s, .error e) => ([], s, .error (.load e))
    | (s, .ok data) =>
     let within := off - prefixSum.getD i 0
     let n := clip (Int64.ofNat data.length - within) (stop - off)
     if n ≤ 0 then ([], s, .error (.uncovered i off))
     else
      match sliceOf data within n with
      | none => ([], s, .error .sliceBounds)
      | some piece =>
       let (more, s, outcome) := walk prefixSum count load stop fuel (off + n) s
       (piece ++ more, s, outcome)
  else ([], s, .ok ())

def walkRange (b : Backup) (load : Load) (start stop : Int64) (s : Loader) :
  Bytes × Loader × Except WalkError Unit :=
 walk b.layout.prefixSum b.table.chunks.length load stop (stop - start).toNatClampNeg start s

inductive SelectError
 | nilIndex
 | badOffsets (path : Str)
 | walk (cause : WalkError)
 | cancelled (cause : Str)
 deriving DecidableEq

def contentEnd (b : Backup) : Int64 :=
 let total := b.layout.prefixSum.getLastD 0
 if 1024 ≤ total then total - 1024 else total

def entryEnd (contentEnd : Int64) (rest : List FileEntry) : Int64 :=
 match rest with
 | [] => contentEnd
 | next :: _ => next.tarOffset

def badRange (contentEnd start stop : Int64) : Prop := start < 0 ∨ stop ≤ start ∨ contentEnd < stop

instance (contentEnd start stop : Int64) : Decidable (badRange contentEnd start stop) :=
 inferInstanceAs (Decidable (_ ∨ _ ∨ _))

structure ByteRange where
 start : Int64
 stop : Int64
 deriving DecidableEq

def pushRange (ranges : List ByteRange) (r : ByteRange) : List ByteRange :=
 match ranges.getLast? with
 | some last =>
  if last.stop = r.start then ranges.dropLast ++ [⟨last.start, r.stop⟩] else ranges ++ [r]
 | none => ranges ++ [r]

def collectRanges (wanted : List Str) (contentEnd : Int64) :
  List ByteRange → List FileEntry → Except SelectError (List ByteRange)
 | ranges, [] => .ok ranges
 | ranges, e :: rest =>
  if e.path ∉ wanted then collectRanges wanted contentEnd ranges rest
  else if badRange contentEnd e.tarOffset (entryEnd contentEnd rest) then
   .error (.badOffsets e.path)
  else
   collectRanges wanted contentEnd
    (pushRange ranges ⟨e.tarOffset, entryEnd contentEnd rest⟩) rest

def writeRanges (b : Backup) (load : Load) : List ByteRange → Loader →
  Bytes × Loader × Except SelectError Unit
 | [], s => ([], s, .ok ())
 | r :: rest, s =>
  match walkRange b load r.start r.stop s with
  | (out, s, .error e) => (out, s, .error (.walk e))
  | (out, s, .ok ()) =>
   let (more, s, outcome) := writeRanges b load rest s
   (out ++ more, s, outcome)

def streamSelectedTar (pk : Packages) (b : Backup) (idx : Option FileIndex)
  (selected : List FileEntry) (verify : Bool) : Bytes × Except SelectError Unit :=
 match idx with
 | none => ([], .error .nilIndex)
 | some idx =>
  match collectRanges (selectionSet idx selected) (contentEnd b) [] idx.entries with
  | .error e => ([], .error e)
  | .ok ranges =>
   match writeRanges b (loadStrict pk b (mustVerify b verify)) ranges Loader.start with
   | (out, _, .error e) => (out, .error e)
   | (out, _, .ok ()) => (out ++ trailer, .ok ())

structure PartialReport where
 entries : Nat
 skipped : Nat
 badChunks : List Nat
 skippedPaths : List Str
 causes : List ChunkError

def PartialReport.empty : PartialReport := ⟨0, 0, [], [], []⟩

def skippedPathsCap : Nat := 50

def PartialReport.skip (r : PartialReport) (path : Str) : PartialReport :=
 { r with
   skipped := r.skipped + 1
   skippedPaths :=
    if r.skippedPaths.length < skippedPathsCap then r.skippedPaths ++ [path] else r.skippedPaths }

def partialFrom (b : Backup) (load : Load) (run : Schedule) (wanted : Option (List Str))
  (contentEnd : Int64) :
  Nat → List FileEntry → Loader → PartialReport →
   Bytes × Loader × PartialReport × Except SelectError Unit
 | _, [], s, report => ([], s, report, .ok ())
 | i, e :: rest, s, report =>
  match run.cancelled i with
  | some cause => ([], s, report, .error (.cancelled cause))
  | none =>
   let stop := entryEnd contentEnd rest
   if badRange contentEnd e.tarOffset stop then ([], s, report, .error (.badOffsets e.path))
   else if wanted.any (e.path ∉ ·) then
    partialFrom b load run wanted contentEnd (i + 1) rest s report
   else
    -- the first walk proves that every chunk of the entry loads
    match walkRange b load e.tarOffset stop s with
    | (_, s, .error _) =>
     partialFrom b load run wanted contentEnd (i + 1) rest s (report.skip e.path)
    | (_, s, .ok ()) =>
     match walkRange b load e.tarOffset stop s with
     | (out, s, .error cause) => (out, s, report, .error (.walk cause))
     | (out, s, .ok ()) =>
      let (more, s, report, outcome) :=
       partialFrom b load run wanted contentEnd (i + 1) rest s
        { report with entries := report.entries + 1 }
      (out ++ more, s, report, outcome)

section

variable (pk : Packages) (run : Schedule) (b : Backup) (idx : Option FileIndex)

def streamTarPartial (wanted : Option (List Str)) (verify : Bool) :
  Bytes × PartialReport × Except SelectError Unit :=
 match idx with
 | none => ([], PartialReport.empty, .error .nilIndex)
 | some idx =>
  match partialFrom b (loadTolerant pk b (mustVerify b verify)) run wanted (contentEnd b) 0
    idx.entries Loader.start PartialReport.empty with
  | (out, s, report, .error e) => (out, { report with causes := s.causes }, .error e)
  | (out, s, report, .ok ()) =>
   (out ++ trailer,
    { report with causes := s.causes, badChunks := s.bad.mergeSort (· ≤ ·) }, .ok ())

/-- `StreamTarPartial`. -/
def streamEveryTarPartial (verify : Bool) : Bytes × PartialReport × Except SelectError Unit :=
 streamTarPartial pk run b idx none verify

def streamSelectedTarPartial (selected : List FileEntry) (verify : Bool) :
  Bytes × PartialReport × Except SelectError Unit :=
 match idx with
 | none => ([], PartialReport.empty, .error .nilIndex)
 | some idx => streamTarPartial pk run b (some idx) (some (selectionSet idx selected)) verify

end

structure Sufficient (idx : FileIndex) (selected : List FileEntry) (s : Set Str) : Prop where
 asked : ∀ e ∈ selected, e.path ∈ s
 above : ∀ p ∈ s, ∀ d ∈ dirs p, d ∈ s
 target : ∀ e ∈ idx.entries, e.type = .hard → e.path ∈ s → e.linkTarget ∈ s

/-- What hard links lead to from the selected paths and their directories. -/
inductive Linked (idx : FileIndex) (selected : List FileEntry) : Str → Prop
 | asked {e : FileEntry} (member : e ∈ selected) : Linked idx selected e.path
 | above {e : FileEntry} {d : Str} (member : e ∈ selected) (up : d ∈ dirs e.path) :
   Linked idx selected d
 | target {e : FileEntry} (inIndex : e ∈ idx.entries) (link : e.type = .hard)
   (before : Linked idx selected e.path) : Linked idx selected e.linkTarget

section Closure

variable {idx : FileIndex} {selected : List FileEntry} {p : Str}

theorem linked_of_selectedPaths (member : p ∈ selectedPaths selected) : Linked idx selected p := by
 rcases List.mem_append.mp member with up | own
 · obtain ⟨e, inside, here⟩ := List.mem_flatMap.mp up
   exact .above inside here
 · obtain ⟨e, inside, rfl⟩ := List.mem_map.mp own
   exact .asked inside

theorem mem_selectionSet_iff : p ∈ selectionSet idx selected ↔ Linked idx selected p := by
 constructor
 · intro member
   refine selectionSet_least ?_ ?_ p member
   · exact fun q start => linked_of_selectedPaths start
   · exact fun e inIndex link before => .target inIndex link before
 · intro linked
   induction linked with
   | asked member =>
    exact subset_selectionSet idx (List.mem_append_right _ (List.mem_map.mpr ⟨_, member, rfl⟩))
   | above member up =>
    exact subset_selectionSet idx (List.mem_append_left _ (List.mem_flatMap.mpr ⟨_, member, up⟩))
   | target inIndex link _ ih => exact target_mem_selectionSet inIndex link ih

theorem selectionSet_subset {s : Set Str} (sufficient : Sufficient idx selected s) :
  {q | q ∈ selectionSet idx selected} ⊆ s := by
 intro q member
 have linked : Linked idx selected q := mem_selectionSet_iff.mp member
 induction linked with
 | asked inside => exact sufficient.asked _ inside
 | above inside up => exact sufficient.above _ (sufficient.asked _ inside) _ up
 | target inIndex link before ih =>
  exact sufficient.target _ inIndex link (ih (mem_selectionSet_iff.mpr before))

/-- The loop over the hard links ends within one pass per entry and one more, and its result is the
least sufficient set exactly when the directories above every link target it adds are linked too. -/
theorem selectionSet_least_iff (idx : FileIndex) (selected : List FileEntry) :
  (∀ fuel, idx.entries.length < fuel →
   saturate (hardlinkRules idx.entries) fuel (selectedPaths selected) = selectionSet idx selected) ∧
  (IsLeast {s | Sufficient idx selected s} {p | p ∈ selectionSet idx selected} ↔
   ∀ e ∈ idx.entries, e.type = .hard → Linked idx selected e.path →
    ∀ d ∈ dirs e.linkTarget, Linked idx selected d) := by
 constructor
 · intro fuel enough
   have few := length_missing_links idx selected
   exact saturate_eq (by omega) (Nat.lt_succ_of_le few)
 constructor
 · rintro ⟨sufficient, -⟩ e inIndex link before d up
   have target : e.linkTarget ∈ selectionSet idx selected :=
    target_mem_selectionSet inIndex link (mem_selectionSet_iff.mpr before)
   exact mem_selectionSet_iff.mp (sufficient.above _ target d up)
 · intro covered
   refine ⟨⟨?_, ?_, ?_⟩, fun s sufficient => selectionSet_subset sufficient⟩
   · exact fun e member => mem_selectionSet_iff.mpr (.asked member)
   · intro q member d up
     apply mem_selectionSet_iff.mpr
     cases mem_selectionSet_iff.mp member with
     | asked inside => exact .above inside up
     | above inside higher => exact .above inside (dirs_trans higher up)
     | target inIndex link before => exact covered _ inIndex link before d up
   · exact fun e inIndex link member => target_mem_selectionSet inIndex link member

end Closure

def record (path : Str) (type : Index.Model.EntryType) (linkTarget : Str) : FileEntry :=
 { (default : FileEntry) with path := path, type := type, linkTarget := linkTarget }

def linkedOutside : FileIndex :=
 { (default : FileIndex) with
   entries := [record (lit "a") .dir [], record (lit "a/x") .reg [],
    record (lit "b") .hard (lit "a/x")] }

/-- The second name brings the file and not the directory of the file. -/
theorem link_target_without_directory :
  selectionSet linkedOutside [record (lit "b") .hard (lit "a/x")] = [lit "a/x", lit "b"] ∧
   ¬ IsLeast {s | Sufficient linkedOutside [record (lit "b") .hard (lit "a/x")] s}
    {p | p ∈ selectionSet linkedOutside [record (lit "b") .hard (lit "a/x")]} := by
 have result : selectionSet linkedOutside [record (lit "b") .hard (lit "a/x")] =
   [lit "a/x", lit "b"] := by
  decide +kernel
 refine ⟨result, ?_⟩
 rintro ⟨sufficient, -⟩
 rw [result] at sufficient
 have up : lit "a" ∈ dirs (lit "a/x") := by decide +kernel
 have file : lit "a/x" ∈ [lit "a/x", lit "b"] := List.mem_cons_self
 have missing : lit "a" ∈ [lit "a/x", lit "b"] := sufficient.above _ file _ up
 revert missing
 decide +kernel

def linkAndDirectory : List FileEntry :=
 [record (lit "a") .dir [], record (lit "b") .hard (lit "a/x")]

theorem link_into_selected_directory : lit "a/x" ∈ selectionSet linkedOutside linkAndDirectory ∧
   IsLeast {s | Sufficient linkedOutside linkAndDirectory s}
   {p | p ∈ selectionSet linkedOutside linkAndDirectory} := by
 have result : selectionSet linkedOutside linkAndDirectory = [lit "a/x", lit "a", lit "b"] := by
  decide +kernel
 refine ⟨by rw [result]; exact List.mem_cons_self,
  (selectionSet_least_iff linkedOutside linkAndDirectory).2.mpr ?_⟩
 have listed : ∀ e ∈ linkedOutside.entries, e.type = .hard → ∀ d ∈ dirs e.linkTarget,
   d ∈ [lit "a/x", lit "a", lit "b"] := by decide +kernel
 intro e inIndex link _ d up
 apply mem_selectionSet_iff.mp
 rw [result]
 exact listed e inIndex link d up

end BackImage.Recovery.SelectedTar
