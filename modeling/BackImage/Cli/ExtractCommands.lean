/- source: cmd/backimage-selfextract/commands.go,
     internal/cli/restore.go
  digest: The two extracting commands: index, selection, tar stream and extractor settings. -/

import BackImage.Archive.Extract
import BackImage.Archive.PathGlob
import BackImage.Recovery.SelectedTar

namespace BackImage.Cli.ExtractCommands

open Archive.Extract Go.Text Archive.PathGlob Index.Model Recovery.SelectedTar Recovery.StreamTar
open Recovery.Unlock

structure Flags where
 out : Str
 includes : List Str
 excludes : List Str
 keepGoing : Bool
 overwrite : Bool
 strict : Bool
 strip : Int
 noVerify : Bool
 removeLocalImage : Bool
 noPreserveOwner : Bool

/-- The host around an extraction: whether the destination exists and holds anything, what
`PreflightRestore` finds missing, and the destination itself. -/
structure Host where
 listing : Option (Except Str Bool)
 preflight : Except Str (Option Str)
 dest : Destination

inductive StreamError
 | select (cause : SelectError)
 | chunk (cause : ChunkError)
 deriving DecidableEq

inductive CommandError
 | usage (text : Str)
 | listing (cause : Str)
 | index (cause : IndexError)
 | lookup (cause : LookupError)
 | nothingSelected (entries : Nat)
 | preflight (cause : Str)
 | permission (reason : Str)
 | extract (cause : ExtractError)
 | stream (cause : StreamError)
 deriving DecidableEq

def chooseEntries (pk : Packages) (b : Backup) (flags : Flags) (refuseEmpty : Bool) :
  Except CommandError (Option FileIndex × Option (List FileEntry)) :=
 if flags.includes ≠ [] ∨ flags.excludes ≠ [] then
  match b.index pk with
  | .error e => .error (.index e)
  | .ok idx =>
   match entriesMatching (some idx) flags.includes flags.excludes with
   | .error e => .error (.lookup e)
   | .ok selected =>
    if refuseEmpty ∧ selected = [] then .error (.nothingSelected idx.entries.length)
    else .ok (some idx, some selected)
 else if flags.keepGoing then
  match b.index pk with
  | .error e => .error (.index e)
  | .ok idx => .ok (some idx, none)
 else .ok (none, none)

def extractorOptions (flags : Flags) (selected : Option (List FileEntry)) : ExtractOptions where
 overwrite := flags.overwrite
 strict := flags.strict
 includes := if selected.isSome then [] else flags.includes
 excludes := if selected.isSome then [] else flags.excludes
 stripComponents := flags.strip

def extractStream (tar : TarReader) (dest : Destination) (opts : ExtractOptions)
  (stream : Bytes × Except StreamError Unit) : List Str × Except CommandError Unit :=
 match extract opts tar dest stream.1, stream.2 with
 | (tried, .error e), _ => (tried, .error (.extract e))
 | (tried, .ok ()), .error e => (tried, .error (.stream e))
 | (tried, .ok ()), .ok () => (tried, .ok ())

def selfExtractStream (pk : Packages) (run : Schedule) (b : Backup) (flags : Flags)
  (idx : Option FileIndex) (selected : Option (List FileEntry)) : Bytes × Except StreamError Unit :=
 if flags.keepGoing then
  let (out, _, outcome) := streamEveryTarPartial pk run b idx true
  (out, outcome.mapError .select)
 else
  match selected with
  | some selected =>
   let (out, outcome) := streamSelectedTar pk b idx selected true
   (out, outcome.mapError .select)
  | none =>
   let (out, outcome) := streamTar pk run b true
   (out, outcome.mapError .chunk)

def cmdExtract (pk : Packages) (run : Schedule) (b : Backup) (tar : TarReader) (host : Host)
  (flags : Flags) : List Str × Except CommandError Unit :=
 if flags.removeLocalImage then ([], .error (.usage (lit "--remove-local-image")))
 else if flags.out = [] then ([], .error (.usage (lit "--out")))
 else if flags.strip < 0 then ([], .error (.usage (lit "--strip-components")))
 else
  let occupied : Option CommandError :=
   if flags.overwrite then none
   else
    match host.listing with
    | none => none
    | some (.ok filled) => if filled then some (.usage (lit "--overwrite")) else none
    | some (.error e) => some (.listing e)
  match occupied with
  | some e => ([], .error e)
  | none =>
   match chooseEntries pk b flags false with
   | .error e => ([], .error e)
   | .ok (idx, selected) =>
    extractStream tar host.dest (extractorOptions flags selected)
     (selfExtractStream pk run b flags idx selected)

def restoreStream (pk : Packages) (run : Schedule) (b : Backup) (flags : Flags)
  (idx : Option FileIndex) (selected : Option (List FileEntry)) : Bytes × Except StreamError Unit :=
 let verify := !flags.noVerify
 if flags.keepGoing then
  match selected with
  | some selected =>
   let (out, _, outcome) := streamSelectedTarPartial pk run b idx selected verify
   (out, outcome.mapError .select)
  | none =>
   let (out, _, outcome) := streamEveryTarPartial pk run b idx verify
   (out, outcome.mapError .select)
 else
  match selected with
  | some selected =>
   let (out, outcome) := streamSelectedTar pk b idx selected verify
   (out, outcome.mapError .select)
  | none =>
   let (out, outcome) := streamTar pk run b verify
   (out, outcome.mapError .chunk)

def restoreExtract (tar : TarReader) (host : Host) (flags : Flags)
  (selected : Option (List FileEntry)) (stream : Bytes × Except StreamError Unit) :
  List Str × Except CommandError Unit :=
 if flags.out = [] then ([], .error (.usage (lit "--destination")))
 else if flags.overwrite = false ∧ host.listing = some (.ok true) then
  ([], .error (.usage (lit "--overwrite")))
 else
  let blocked : Option CommandError :=
   if flags.noPreserveOwner then none
   else
    match host.preflight with
    | .error e => some (.preflight e)
    | .ok none => none
    | .ok (some reason) => if flags.strict then some (.permission reason) else none
  match blocked with
  | some e => ([], .error e)
  | none => extractStream tar host.dest (extractorOptions flags selected) stream

def runRestore (pk : Packages) (run : Schedule) (b : Backup) (tar : TarReader) (host : Host)
  (flags : Flags) : List Str × Except CommandError Unit :=
 if flags.strip < 0 then ([], .error (.usage (lit "--strip-components")))
 else
  match chooseEntries pk b flags true with
  | .error e => ([], .error e)
  | .ok (idx, selected) =>
   restoreExtract tar host flags selected (restoreStream pk run b flags idx selected)

section Commands

variable {pk : Packages} {run : Schedule} {b : Backup} {tar : TarReader} {host : Host}
 {flags : Flags} {idx : FileIndex} {selected : List FileEntry} {p : Str}

theorem mem_extractStream {dest : Destination} {opts : ExtractOptions}
  {stream : Bytes × Except StreamError Unit} :
  p ∈ (extractStream tar dest opts stream).1 ↔ p ∈ (extract opts tar dest stream.1).1 := by
 unfold extractStream
 split <;> rename_i ran <;> simp_all

section

variable (given : flags.includes ≠ [] ∨ flags.excludes ≠ []) (indexed : b.index pk = .ok idx)
 (matched : entriesMatching (some idx) flags.includes flags.excludes = .ok selected)

include given indexed matched

theorem chooseEntries_filtered {refuseEmpty : Bool} : chooseEntries pk b flags refuseEmpty =
   if refuseEmpty ∧ selected = [] then .error (.nothingSelected idx.entries.length)
   else .ok (some idx, some selected) := by
 unfold chooseEntries
 rw [if_pos given, indexed]
 dsimp only
 rw [matched]

theorem tried_runRestore (member : p ∈ (runRestore pk run b tar host flags).1) :
  p ∈ (extract (extractorOptions flags (some selected)) tar host.dest
   (restoreStream pk run b flags (some idx) (some selected)).1).1 := by
 unfold runRestore at member
 split at member
 · cases member
 · rw [chooseEntries_filtered given indexed matched] at member
   by_cases empty : True ∧ selected = []
   · simp [empty.2] at member
   · rw [if_neg (by simpa using empty)] at member
     dsimp only at member
     unfold restoreExtract at member
     split at member
     · cases member
     · split at member
       · cases member
       · dsimp only at member
         split at member
         · cases member
         · exact mem_extractStream.mp member

theorem tried_cmdExtract (member : p ∈ (cmdExtract pk run b tar host flags).1) :
  p ∈ (extract (extractorOptions flags (some selected)) tar host.dest
   (selfExtractStream pk run b flags (some idx) (some selected)).1).1 := by
 unfold cmdExtract at member
 rw [chooseEntries_filtered given indexed matched] at member
 split at member
 · cases member
 · split at member
   · cases member
   · split at member
     · cases member
     · dsimp only at member
       split at member
       · cases member
       · exact mem_extractStream.mp member

theorem cmdExtract_usable
  (usable : flags.removeLocalImage = false ∧ flags.out ≠ [] ∧ 0 ≤ flags.strip)
  (vacant : host.listing = none) :
  p ∈ (cmdExtract pk run b tar host flags).1 ↔
   p ∈ (extract (extractorOptions flags (some selected)) tar host.dest
    (selfExtractStream pk run b flags (some idx) (some selected)).1).1 := by
 obtain ⟨noRemoval, named, nonneg⟩ := usable
 unfold cmdExtract
 rw [chooseEntries_filtered given indexed matched, if_neg (by simp [noRemoval]), if_neg named,
  if_neg (by omega), vacant]
 simp only [ite_self]
 exact mem_extractStream

end

end Commands

end BackImage.Cli.ExtractCommands
