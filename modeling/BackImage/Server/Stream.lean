/- source: pkg/server/stream.go
  digest: The streaming server pipeline: a receiver that cuts and an uploader one layer behind. -/

import BackImage.Index.CutTables

namespace BackImage.Server.Stream

open Chunk.Boundary Crypt.Envelope Go.Sha256 Go.Text Index.CutTables Index.Model Index.Private

def maxDataLayers : Nat := 118

structure StreamConfig where
 dedup : Bool
 estimatedBytes : Int64
 maxBytes : UInt64
 encryption : EncryptionInfo
 toolVersion : Str
 sources : List Str
 host : HostInfo
 codecName : Str
 level : Int
 layerBytes : Int64
 chunkBytes : Int64
 cdc : CDCParams
 created : Time
 deriving Inhabited

structure ScanOutcome where
 files : Int64
 dirs : Int64
 symlinks : Int64
 hardlinks : Int64
 devices : Int64
 bytesRaw : Int64
 entries : List FileEntry
 deriving Inhabited

inductive StreamError
 | cancelled (cause : Str)
 | upload (cause : Str)
 | split (cause : Str)
 | store (cause : StoreError)
 | spool (cause : Str)
 | quota (plain : Int64) (maxBytes : UInt64)
 | layerLimit (limit : Nat)
 | scan (cause : Str)
 | noData
 | metadata (cause : MetadataError)
 | commit (cause : Str)
 deriving DecidableEq

structure StreamEnv where
 store : Store
 splitErr : Option Str
 scan : Except Str ScanOutcome
 writer : MetadataWriter
 commit : Metadata → Except Str Str

structure Pending where
 spool : Spool
 index : Nat
 first : Int
 last : Int
 deriving DecidableEq

structure LayerResult where
 info : LayerInfo
 dataPath : Str
 deriving DecidableEq

inductive Phase
 | receiving
 | handing (p : Pending) (final : Bool)
 | handed (final : Bool)
 | draining
 | publishing
 | aborting (cause : StreamError)
 | finished (outcome : Except StreamError Str)

structure StreamState where
 phase : Phase
 todo : List PlainChunk
 spool : Option Spool
 rows : List Chunk
 layerInfo : List LayerInfo
 chunkIdx : Nat
 plain : Int64
 stored : Int64
 boundary : LayerBoundary
 boundaryFallback : Bool
 nextFrom : Nat
 layerCount : Nat
 uploader : Option Pending
 results : List LayerResult
 uploadErr : Option Str
 commits : List Metadata

def StreamState.start (boundary : LayerBoundary) (data : List Bytes) : StreamState where
 phase := .receiving
 todo := number 0 data
 spool := none
 rows := []
 layerInfo := []
 chunkIdx := 0
 plain := 0
 stored := 0
 boundary := boundary
 boundaryFallback := false
 nextFrom := 0
 layerCount := 0
 uploader := none
 results := []
 uploadErr := none
 commits := []

section Steps

variable (env : StreamEnv) (cfg : StreamConfig) (st : StreamState)

def policyOf : LayerPolicy where
 dedup := cfg.dedup
 estimated := cfg.estimatedBytes
 maxLayers := maxDataLayers

def storeChunk (s : StoredChunk) : StreamState :=
 { st with
   spool := some ((st.spool.getD ⟨st.layerCount, [], 0⟩).write s.stored)
   rows := st.rows ++ [rowOf [] s]
   chunkIdx := st.chunkIdx + 1
   plain := st.plain + s.plain.plainBytes
   stored := st.stored + s.size }

def shouldRoll (digest : Bytes) : Bool :=
 match st.spool with
 | none => false
 | some s => if (maxDataLayers : Int) - 1 ≤ st.layerCount then false else st.boundary s.size digest

def roll (final : Bool) : StreamState :=
 match st.spool with
 | none => { st with phase := if final then .draining else .receiving }
 | some s =>
  if maxDataLayers ≤ st.layerCount then { st with phase := .aborting (.layerLimit maxDataLayers) }
  else
   { st with
     phase := .handing ⟨s, st.layerCount, st.nextFrom, (st.chunkIdx : Int) - 1⟩ final
     spool := none
     nextFrom := st.chunkIdx
     layerCount := st.layerCount + 1 }

def applyBoundaryFallback : StreamState :=
 let (boundary, fallback) := fallbackBoundary cfg.dedup cfg.estimatedBytes st.plain st.layerCount
  (st.boundary, st.boundaryFallback)
 { st with boundary := boundary, boundaryFallback := fallback }

def receive : StreamState :=
 match st.uploadErr with
 | some e => { st with phase := .aborting (.upload e) }
 | none =>
  match st.todo with
  | [] =>
   match env.splitErr with
   | some e => { st with phase := .aborting (.split e) }
   | none => roll st true
  | ck :: rest =>
   match storedOf env.store ck with
   | .error e => { st with phase := .aborting (.store e) }
   | .ok stored =>
    let st := storeChunk { st with todo := rest } ⟨ck, stored⟩
    if 0 < cfg.maxBytes ∧ cfg.maxBytes < st.plain.toUInt64 then
     { st with phase := .aborting (.quota st.plain cfg.maxBytes) }
    else if shouldRoll st (sum256 stored) then roll st false
    else st

def resultOf (p : Pending) : LayerResult where
 info := ⟨p.index, digestText p.spool.content, p.first, p.last, p.spool.size⟩
 dataPath := dataBlobPath (digestText p.spool.content)

def foldResults : StreamState :=
 { st with
   rows := st.results.foldl
    (fun rows r => renameRows r.info.chunkFrom r.info.chunkTo r.dataPath rows) st.rows
   layerInfo := st.layerInfo ++ st.results.map LayerResult.info }

def chunkingInfo : ChunkingInfo :=
 chunkingOf cfg.dedup cfg.chunkBytes cfg.cdc st.boundaryFallback st.chunkIdx

/-- `manifest`. -/
def manifestOf (cfg : StreamConfig) (scan : ScanOutcome) (st : StreamState) : Manifest where
 schemaVersion := schemaVersion
 tool := ⟨lit "backimage", cfg.toolVersion⟩
 createdAt := cfg.created
 sources := cfg.sources
 host := cfg.host
 totals := ⟨scan.files, scan.dirs, scan.symlinks, scan.hardlinks, scan.devices, scan.bytesRaw,
  st.stored⟩
 archive := ⟨lit "tar", cfg.codecName, cfg.level⟩
 encryption :=
  if cfg.encryption.enabled then
   { cfg.encryption with
     kdf := lit "scrypt-age", aead := lit "aes256-gcm", envelopeVersion := envelopeVersion.toNat }
  else default
 chunking := chunkingInfo cfg st
 layers := st.layerInfo
 index := ⟨lit "index.json.zst", [], cfg.encryption.enabled⟩
 privateRef := none

def drain : StreamState :=
 match st.uploadErr with
 | some e => { st with phase := .aborting (.upload e) }
 | none =>
  let st := foldResults st
  match env.scan with
  | .error e => { st with phase := .finished (.error (.scan e)) }
  | .ok _ =>
   if st.chunkIdx = 0 then { st with phase := .finished (.error .noData) }
   else { st with phase := .publishing }

def publish : StreamState :=
 match env.scan with
 | .error e => { st with phase := .finished (.error (.scan e)) }
 | .ok scan =>
  match assemble env.writer (manifestOf cfg scan st) ⟨schemaVersion, st.rows⟩ scan.entries with
  | .error e => { st with phase := .finished (.error (.metadata e)) }
  | .ok md =>
   let outcome :=
    match env.commit md with
    | .error e => .error (.commit e)
    | .ok digest => .ok digest
   { st with phase := .finished outcome, commits := st.commits ++ [md] }

inductive Event
 | receive
 | cancel (cause : Str)
 | spoolFault (cause : Str)
 | handoff
 | resume
 | upload (fault : Option Str)
 | drain
 | publish
 | abort
 deriving DecidableEq

def finishUpload (p : Pending) (fault : Option Str) : StreamState :=
 match st.uploadErr, fault with
 | some _, _ => { st with uploader := none }
 | none, some e => { st with uploader := none, uploadErr := some e }
 | none, none => { st with uploader := none, results := st.results ++ [resultOf p] }

def step : Event → Option StreamState
 | .receive =>
  match st.phase with
  | .receiving => some (receive env cfg st)
  | _ => none
 | .cancel e =>
  match st.phase with
  | .receiving => some { st with phase := .aborting (.cancelled e) }
  | _ => none
 | .spoolFault e =>
  match st.phase with
  | .receiving => some { st with phase := .aborting (.spool e) }
  | _ => none
 | .handoff =>
  match st.phase, st.uploader with
  | .handing p final, none =>
   some (applyBoundaryFallback cfg { st with phase := .handed final, uploader := some p })
  | _, _ => none
 | .resume =>
  match st.phase with
  | .handed final =>
   match st.uploadErr with
   | some e => some { st with phase := .aborting (.upload e) }
   | none => some { st with phase := if final then .draining else .receiving }
  | _ => none
 | .upload fault =>
  match st.uploader with
  | some p => some (finishUpload st p fault)
  | none => none
 | .drain =>
  match st.phase, st.uploader with
  | .draining, none => some (drain env st)
  | _, _ => none
 | .publish =>
  match st.phase with
  | .publishing => some (publish env cfg st)
  | _ => none
 | .abort =>
  match st.phase, st.uploader with
  | .aborting e, none => some { st with phase := .finished (.error e) }
  | _, _ => none

def run (env : StreamEnv) (cfg : StreamConfig) : StreamState → List Event → Option StreamState
 | st, [] => some st
 | st, ev :: rest =>
  match step env cfg st ev with
  | none => none
  | some st => run env cfg st rest

end Steps

section Transitions

variable {env : StreamEnv} {cfg : StreamConfig} {st st' : StreamState}

inductive Transition (env : StreamEnv) (cfg : StreamConfig) (st : StreamState) : StreamState → Prop
 | receives (here : st.phase = .receiving) : Transition env cfg st (receive env cfg st)
 | stops (cause : StreamError) (other : ∀ limit, cause ≠ .layerLimit limit)
   (here : st.phase = .receiving) :
   Transition env cfg st { st with phase := .aborting cause }
 | handsOver (p : Pending) (final : Bool) (here : st.phase = .handing p final)
   (idle : st.uploader = none) :
   Transition env cfg st
    (applyBoundaryFallback cfg { st with phase := .handed final, uploader := some p })
 | notices (cause : Str) (final : Bool) (here : st.phase = .handed final) :
   Transition env cfg st { st with phase := .aborting (.upload cause) }
 | resumes (final : Bool) (here : st.phase = .handed final) :
   Transition env cfg st { st with phase := if final then .draining else .receiving }
 | uploads (p : Pending) (fault : Option Str) (flying : st.uploader = some p) :
   Transition env cfg st (finishUpload st p fault)
 | drains (here : st.phase = .draining) (idle : st.uploader = none) :
   Transition env cfg st (drain env st)
 | publishes (here : st.phase = .publishing) : Transition env cfg st (publish env cfg st)
 | aborts (cause : StreamError) (here : st.phase = .aborting cause) :
   Transition env cfg st { st with phase := .finished (.error cause) }

theorem transition_of_step {event : Event} (happens : step env cfg st event = some st') :
  Transition env cfg st st' := by
 unfold step at happens
 cases event <;> grind [Transition]

theorem run_keeps {P : StreamState → Prop} {events : List Event} (start : P st)
  (keeps : ∀ t u, P t → Transition env cfg t u → P u) (ends : run env cfg st events = some st') :
  P st' := by
 induction events generalizing st with
 | nil =>
  cases ends
  exact start
 | cons event rest ih =>
  unfold run at ends
  split at ends
  · cases ends
  · rename_i next happens
    exact ih (keeps st next start (transition_of_step happens)) ends

end Transitions

end BackImage.Server.Stream
