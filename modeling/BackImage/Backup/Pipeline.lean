/- source: pkg/backup/pipeline.go
  digest: The local builder spools stored chunks into layers and emits the tables of its cut. -/

import BackImage.Index.CutTables

namespace BackImage.Backup.Pipeline

open Chunk.Boundary Crypt.Envelope Go.Sha256 Go.Text Index.CutTables Index.Model Index.Private
open Lib.Wrap

structure Config where
 dedup : Bool
 encrypt : Bool
 noMetadata : Bool
 version : Str
 rootPaths : List Str
 recipients : List Str
 keyFingerprint : Str
 codecName : Str
 level : Int
 layerBytes : Int64
 chunkBytes : Int64
 cdcParams : CDCParams
 estimatedRaw : Int64
 maxDataLayers : Int
 createdAt : Time
 deriving Inhabited

structure Stats where
 files : Int64
 dirs : Int64
 symlinks : Int64
 hardlinks : Int64
 devices : Int64
 fifos : Int64
 bytesRaw : Int64
 deriving DecidableEq, Inhabited

inductive BuildError
 | badSize
 | sealer (cause : Str)
 | split (cause : Str)
 | cancelled (cause : Str)
 | store (cause : StoreError)
 | createSpool (cause : Str)
 | writeSpool (cause : Str)
 | layerLimit (limit : Int)
 | digest (cause : Str)
 | closeSpool (cause : Str)
 | fileLayer (cause : Str)
 | archive (cause : Str)
 | noData
 | metadata (cause : MetadataError)
 deriving DecidableEq

/-- The answers of everything outside the builder. A call that can fail is numbered by the chunk
or the layer it is made for, so that every call may answer differently. -/
structure Env where
 newSealer : Option Str
 cancelled : Nat → Option Str
 store : Store
 createSpool : Nat → Option Str
 writeSpool : Nat → Option Str
 digestSpool : Nat → Option Str
 closeSpool : Nat → Option Str
 fileLayer : Nat → Option Str
 writer : MetadataWriter
 host : HostInfo

structure Feed where
 data : List Bytes
 splitErr : Option Str
 archiveErr : Option Str
 stats : Stats
 entries : List FileEntry

inductive TempFile
 | spool (idx : Nat)
 | layer (idx : Nat)
 deriving DecidableEq

structure Builder where
 spool : Option Spool
 rows : List Chunk
 layers : List LayerInfo
 chunkIdx : UInt32
 blobIdx : Nat
 boundary : LayerBoundary
 boundaryFallback : Bool
 plainBytes : Int64
 disk : List TempFile

def Builder.start (boundary : LayerBoundary) : Builder :=
 ⟨none, [], [], 0, 0, boundary, false, 0, []⟩

def blobPath (blobIdx : Nat) : Str := lit "backup/data/" ++ decimal6 blobIdx ++ lit ".blob"

def openSpool (env : Env) (b : Builder) : Except BuildError (Builder × Spool) :=
 match b.spool with
 | some s => .ok (b, s)
 | none =>
  match env.createSpool b.blobIdx with
  | some e => .error (.createSpool e)
  | none =>
   let s : Spool := ⟨b.blobIdx, [], 0⟩
   .ok ({ b with spool := some s, disk := .spool b.blobIdx :: b.disk }, s)

def storeChunk (env : Env) (ck : PlainChunk) (b : Builder) : Builder × Except BuildError Bytes :=
 match storedOf env.store ck with
 | .error e => (b, .error (.store e))
 | .ok stored =>
  match openSpool env b with
  | .error e => (b, .error e)
  | .ok (b, s) =>
   match env.writeSpool ck.index with
   | some e => (b, .error (.writeSpool e))
   | none => ({ b with spool := some (s.write stored) }, .ok stored)

section Build

variable (env : Env) (cfg : Config) (feed : Feed)

def policyOf : LayerPolicy where
 dedup := cfg.dedup
 estimated := cfg.estimatedRaw
 maxLayers := if cfg.maxDataLayers ≤ 0 then 118 else cfg.maxDataLayers

def shouldRollLayer (b : Builder) (chunkDigest : Bytes) : Bool :=
 match b.spool with
 | none => false
 | some s =>
  if (policyOf cfg).maxLayers - 1 ≤ b.layers.length then false else b.boundary s.size chunkDigest

/-- `spool.Remove()`. -/
def removeSpool (s : Spool) (b : Builder) : Builder :=
 { b with disk := b.disk.filter (· ≠ .spool s.idx) }

def applyFallback (b : Builder) : Builder :=
 let (boundary, fallback) := fallbackBoundary cfg.dedup cfg.estimatedRaw b.plainBytes
  b.layers.length (b.boundary, b.boundaryFallback)
 { b with boundary := boundary, boundaryFallback := fallback }

def nextFrom (layers : List LayerInfo) : Int :=
 match layers.getLast? with
 | none => 0
 | some l => l.chunkTo + 1

def rollLayer (b : Builder) : Builder × Except BuildError Unit :=
 match b.spool with
 | none => (b, .ok ())
 | some s =>
  if 0 < cfg.maxDataLayers ∧ cfg.maxDataLayers ≤ b.layers.length then
   (b, .error (.layerLimit cfg.maxDataLayers))
  else
   match env.digestSpool b.layers.length with
   | some e => (removeSpool s b, .error (.digest e))
   | none =>
    match env.closeSpool b.layers.length with
    | some e => (b, .error (.closeSpool e))
    | none =>
     let digest := digestText s.content
     let first := nextFrom b.layers
     let last : Int := b.chunkIdx.toNat - 1
     let b := { b with rows := renameRows first last (dataBlobPath digest) b.rows }
     match env.fileLayer b.layers.length with
     | some e => (removeSpool s b, .error (.fileLayer e))
     | none =>
      let info : LayerInfo := ⟨b.layers.length, digest, first, last, s.size⟩
      let b := removeSpool s { b with disk := .layer b.layers.length :: b.disk }
      (applyFallback cfg
       { b with
         layers := b.layers ++ [info], blobIdx := b.blobIdx + 1, spool := none },
       .ok ())

def appendRow (b : Builder) (s : StoredChunk) : Builder :=
 { b with
   rows := b.rows ++ [rowOf (blobPath b.blobIdx) s]
   chunkIdx := b.chunkIdx + 1
   plainBytes := b.plainBytes + s.plain.plainBytes }

/-- The body of the chunk loop of `build`. -/
def feedChunk (ck : PlainChunk) (b : Builder) : Builder × Except BuildError Unit :=
 match env.cancelled ck.index with
 | some e => (b, .error (.cancelled e))
 | none =>
  match storeChunk env ck b with
  | (b, .error e) => (b, .error e)
  | (b, .ok stored) =>
   let b := appendRow b ⟨ck, stored⟩
   if shouldRollLayer cfg b (sum256 stored) then rollLayer env cfg b else (b, .ok ())

/-- The chunk loop of `build`. -/
def feedAll (env : Env) (cfg : Config) : List PlainChunk → Builder →
  Builder × Except BuildError Unit
 | [], b => (b, .ok ())
 | ck :: rest, b =>
  match feedChunk env cfg ck b with
  | (b, .error e) => (b, .error e)
  | (b, .ok ()) => feedAll env cfg rest b

/-- What `build` does once the chunks are fed. -/
def finish : Builder × Except BuildError Unit → Builder × Except BuildError Unit
 | (b, .error e) => (b, .error e)
 | (b, .ok ()) =>
  match feed.splitErr with
  | some e => (b, .error (.split e))
  | none =>
   match feed.archiveErr with
   | some e => (b, .error (.archive e))
   | none => if b.chunkIdx = 0 then (b, .error .noData) else rollLayer env cfg b

/-- `build` once its boundary is chosen. -/
def buildWith (boundary : LayerBoundary) : Builder × Except BuildError Unit :=
 let b := Builder.start boundary
 if cfg.dedup = false ∧ (cfg.chunkBytes < minChunkSize ∨ maxChunkSize < cfg.chunkBytes) then
  (b, .error .badSize)
 else
  match env.newSealer with
  | some e => (b, .error (.sealer e))
  | none => finish env cfg feed (feedAll env cfg (number 0 feed.data) b)

def build : Builder × Except BuildError Unit :=
 buildWith env cfg feed (initialBoundary cfg.dedup cfg.layerBytes)

def storedBytes (b : Builder) : Int64 := wrapSum 0 (b.rows.map Chunk.sb)

def chunkingInfo (b : Builder) : ChunkingInfo :=
 chunkingOf cfg.dedup cfg.chunkBytes cfg.cdcParams b.boundaryFallback b.chunkIdx.toNat

/-- The manifest `finalize` starts from. -/
def manifestOf (stats : Stats) (b : Builder) : Manifest where
 schemaVersion := 1
 tool := ⟨lit "backimage", cfg.version⟩
 createdAt := cfg.createdAt
 sources := if cfg.noMetadata then [] else cfg.rootPaths
 host := if cfg.noMetadata then default else env.host
 totals :=
  { files := stats.files
    dirs := stats.dirs
    symlinks := stats.symlinks
    hardlinks := stats.hardlinks
    devices := stats.devices + stats.fifos
    bytesRaw := stats.bytesRaw
    bytesStored := storedBytes b }
 archive := ⟨lit "tar", cfg.codecName, cfg.level⟩
 encryption :=
  if cfg.encrypt then
   { enabled := true
     kdf := lit "scrypt-age"
     aead := lit "aes256-gcm"
     envelopeVersion := envelopeVersion.toNat
     nonceMode := if cfg.dedup then lit "convergent" else lit "random"
     keyFingerprint := cfg.keyFingerprint
     recipients := cfg.recipients }
  else default
 chunking := chunkingInfo cfg b
 layers := b.layers
 index := ⟨lit "index.json.zst", [], cfg.encrypt⟩
 privateRef := none

def finalize (b : Builder) : Except BuildError Metadata :=
 match assemble env.writer (manifestOf env cfg feed.stats b) ⟨schemaVersion, b.rows⟩
  feed.entries with
 | .error e => .error (.metadata e)
 | .ok md => .ok md

def backupWith (boundary : LayerBoundary) : Except BuildError Metadata :=
 match buildWith env cfg feed boundary with
 | (_, .error e) => .error e
 | (b, .ok ()) => finalize env cfg feed b

end Build

section Ends

variable {env : Env} {cfg : Config} {b b' : Builder} {s : Spool} {e : BuildError}

theorem openSpool_ok (opened : openSpool env b = .ok (b', s)) :
  b.spool = some s ∧ b' = b ∨ b.spool = none ∧ s = ⟨b.blobIdx, [], 0⟩ ∧
   b' = { b with spool := some s, disk := .spool b.blobIdx :: b.disk } := by
 unfold openSpool at opened
 grind

theorem openSpool_error (failed : openSpool env b = .error e) :
  ∃ cause, e = .createSpool cause := by
 unfold openSpool at failed
 split at failed
 · cases failed
 · split at failed
   · cases failed
     exact ⟨_, rfl⟩
   · cases failed

theorem openSpool_layers (opened : openSpool env b = .ok (b', s)) : b'.layers = b.layers := by
 rcases openSpool_ok opened with ⟨-, rfl⟩ | ⟨-, -, rfl⟩ <;> rfl

def layerInfo (b : Builder) (s : Spool) : LayerInfo :=
 ⟨b.layers.length, digestText s.content, nextFrom b.layers, b.chunkIdx.toNat - 1, s.size⟩

def renamedRows (b : Builder) (s : Spool) : List Chunk :=
 renameRows (nextFrom b.layers) (b.chunkIdx.toNat - 1) (dataBlobPath (digestText s.content)) b.rows

/-- The ways `rollLayer` ends. -/
inductive Rolled (cfg : Config) (b : Builder) : Builder → Except BuildError Unit → Prop
 | idle (missing : b.spool = none) : Rolled cfg b b (.ok ())
 | limit (s : Spool) (found : b.spool = some s)
   (reached : 0 < cfg.maxDataLayers ∧ cfg.maxDataLayers ≤ b.layers.length) :
   Rolled cfg b b (.error (.layerLimit cfg.maxDataLayers))
 | digest (s : Spool) (found : b.spool = some s) (cause : Str) :
   Rolled cfg b (removeSpool s b) (.error (.digest cause))
 | close (s : Spool) (found : b.spool = some s) (cause : Str) :
   Rolled cfg b b (.error (.closeSpool cause))
 | file (s : Spool) (found : b.spool = some s) (cause : Str) :
   Rolled cfg b (removeSpool s { b with rows := renamedRows b s }) (.error (.fileLayer cause))
 | closed (s : Spool) (found : b.spool = some s) :
   Rolled cfg b
    (applyFallback cfg
     { removeSpool s { b with disk := .layer b.layers.length :: b.disk } with
       rows := renamedRows b s, layers := b.layers ++ [layerInfo b s]
       blobIdx := b.blobIdx + 1, spool := none })
    (.ok ())

theorem rollLayer_rolled (env : Env) (cfg : Config) (b : Builder) :
  Rolled cfg b (rollLayer env cfg b).1 (rollLayer env cfg b).2 := by
 unfold rollLayer
 split
 · exact .idle ‹_›
 · rename_i s found
   split
   · exact .limit s found ‹_›
   · split
     · exact .digest s found _
     · split
       · exact .close s found _
       · dsimp only
         split
         · exact .file s found _
         · exact .closed s found

end Ends

end BackImage.Backup.Pipeline
