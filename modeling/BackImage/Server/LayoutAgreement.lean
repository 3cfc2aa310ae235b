/- source: pkg/backup/pipeline.go, pkg/server/stream.go
  digest: When the streaming server and the local builder end with the same layout. -/

import BackImage.Backup.TempFiles
import BackImage.Server.TableAgreement

namespace BackImage.Server.LayoutAgreement

open Backup.CutRefinement Chunk.Boundary Go.Sha256 Go.Text Index.CutTables Index.Model
open Server.Stream StreamRefinement TableAgreement
open Backup.TempFiles (BadSize Closes Smooth Takes buildWith_cases)
open Backup.Pipeline (Env Config Feed Builder build buildWith)
open Index.Private hiding policyOf
open Lib.Cut (Cutting cutting cut items_cutting)

structure Layout where
 rows : List Chunk
 layers : List LayerInfo
 chunking : ChunkingInfo
 deriving DecidableEq

def localLayout (cfg : Config) (b : Builder) : Layout :=
 ⟨b.rows, b.layers, Backup.Pipeline.chunkingInfo cfg b⟩

def streamLayout (cfg : StreamConfig) (st : StreamState) : Layout :=
 ⟨st.rows, st.layerInfo, chunkingInfo cfg st⟩

/-- Both sides were given the same stream parameters, and the local one the budget `Run` sets. -/
structure SameParameters (cfg : Config) (scfg : StreamConfig) : Prop where
 dedup : cfg.dedup = scfg.dedup
 estimated : cfg.estimatedRaw = scfg.estimatedBytes
 layerBytes : cfg.layerBytes = scfg.layerBytes
 chunkBytes : cfg.chunkBytes = scfg.chunkBytes
 cdc : cfg.cdcParams = scfg.cdc
 budget : cfg.maxDataLayers = maxDataLayers

variable {cfg : Config} {scfg : StreamConfig}

theorem SameParameters.policy (same : SameParameters cfg scfg) :
  Backup.Pipeline.policyOf cfg = policyOf scfg := by
 have budget : ¬ ((maxDataLayers : Nat) : Int) ≤ 0 := by decide
 simp only [Backup.Pipeline.policyOf, policyOf, same.dedup, same.estimated, same.budget,
  if_neg budget]

variable {b : Builder} {st : StreamState}

theorem SameParameters.chunkingInfo_eq (same : SameParameters cfg scfg)
  (count : b.chunkIdx.toNat = st.chunkIdx) (fallback : b.boundaryFallback = st.boundaryFallback) :
  Backup.Pipeline.chunkingInfo cfg b = chunkingInfo scfg st := by
 simp only [Backup.Pipeline.chunkingInfo, chunkingInfo, same.dedup, same.chunkBytes, same.cdc,
  fallback, count]

section Ended

variable (env : StreamEnv) (cfg : StreamConfig) (boundary : LayerBoundary) (data : List Bytes)

def wholeCut : List (List StoredChunk) :=
 cut (rolls (policyOf cfg) boundary) (storedChunks env.store (number 0 data))

/-- What holds after the last chunk: the boundary is the one after the whole cut, and a finished
backup keeps the tables it published. -/
def Settled (st : StreamState) : Phase → Prop
 | .draining => st.boundaryFallback = fallenBack (policyOf cfg) (wholeCut env cfg boundary data)
 | .publishing => st.boundaryFallback = fallenBack (policyOf cfg) (wholeCut env cfg boundary data)
 | .finished (.ok _) =>
  st.rows = (wholeCut env cfg boundary data).flatMap layerRows ∧
   st.layerInfo = layersFrom 0 0 (wholeCut env cfg boundary data) ∧
   st.chunkIdx = data.length ∧
   st.boundaryFallback = fallenBack (policyOf cfg) (wholeCut env cfg boundary data)
 | _ => True

variable {env cfg boundary data} {st st' : StreamState} {done : List StoredChunk}

variable {final : Bool}

theorem settled_roll (owned : final = true → st.spool = none →
   st.boundaryFallback = fallenBack (policyOf cfg) (wholeCut env cfg boundary data)) :
  Settled env cfg boundary data (roll st final) (roll st final).phase := by
 unfold roll
 split
 · rename_i none_open
   cases final with
   | true => exact owned rfl none_open
   | false => trivial
 · split <;> trivial

theorem settled_receive (inv : Inv env cfg boundary data st) (here : st.phase = .receiving) :
  Settled env cfg boundary data (receive env cfg st) (receive env cfg st).phase := by
 obtain ⟨⟨done, received, inPhase⟩, -⟩ := inv
 rw [here] at inPhase
 obtain ⟨-, -, owned, -⟩ := inPhase
 rcases receive_cases env cfg st with ⟨cause, -, is⟩ | ⟨todo, is⟩ |
  ⟨ck, rest, stored, todo, storedIs, ⟨cause, -, is⟩ | is⟩
 · rw [is]
   trivial
 · rw [is]
   apply settled_roll
   intro _ none_open
   -- the last group was closed before the stream ended
   have all : wholeCut env cfg boundary data =
     (cutting (rolls (policyOf cfg) boundary) done).closed := by
    have spool := owned.spool
    rw [none_open] at spool
    have empty : (cutting (rolls (policyOf cfg) boundary) done).filling.isEmpty = true := by
     by_contra filled
     rw [spoolOf, if_neg filled] at spool
     cases spool
    rw [wholeCut, storedChunks_of_received received todo, cut, Cutting.close, if_pos empty]
   rw [all]
   exact owned.fallback
 · rw [is]
   trivial
 · rw [is]
   split
   · apply settled_roll
     intro last
     cases last
   · have here' : (storeChunk { st with todo := rest } ⟨ck, stored⟩).phase = .receiving := here
     rw [here']
     trivial

theorem settled_resume (inv : Inv env cfg boundary data st) (here : st.phase = .handed final) :
  Settled env cfg boundary data { st with phase := if final then .draining else .receiving }
   (if final then .draining else .receiving) := by
 obtain ⟨⟨done, received, inPhase⟩, -⟩ := inv
 rw [here] at inPhase
 obtain ⟨handed, groups, exceeds, -, -, owned, -⟩ := inPhase
 cases final with
 | false => trivial
 | true =>
  have all : wholeCut env cfg boundary data = handed := by
   rw [wholeCut, storedChunks_of_received received (exceeds rfl)]
   exact congrArg Cutting.closed groups
  change st.boundaryFallback = _
  rw [all]
  exact owned.fallback

theorem settled_drain (settled : Settled env cfg boundary data st .draining) :
  Settled env cfg boundary data (drain env st) (drain env st).phase := by
 unfold drain
 split
 · trivial
 · dsimp only
   split
   · trivial
   · split
     · trivial
     · exact settled

theorem settled_publish (inv : Inv env cfg boundary data st) (here : st.phase = .publishing)
  (settled : Settled env cfg boundary data st .publishing) :
  Settled env cfg boundary data (publish env cfg st) (publish env cfg st).phase := by
 obtain ⟨⟨done, received, inPhase⟩, -⟩ := inv
 rw [here] at inPhase
 obtain ⟨exceeds, rows, layers⟩ := inPhase
 have all := storedChunks_of_received received exceeds
 have count : st.chunkIdx = data.length := by
  have lengths := congrArg List.length received.plains
  rw [exceeds, List.append_nil, List.length_map, number_length] at lengths
  rw [received.counter, lengths]
 unfold publish
 split
 · trivial
 · split
   · trivial
   · dsimp only
     split
     · trivial
     · refine ⟨?_, ?_, count, settled⟩
       · rw [wholeCut, all]
         exact rows
       · rw [wholeCut, all]
         exact layers

theorem settled_transition (inv : Inv env cfg boundary data st)
  (settled : Settled env cfg boundary data st st.phase) (happens : Transition env cfg st st') :
  Settled env cfg boundary data st' st'.phase := by
 cases happens with
 | receives here => exact settled_receive inv here
 | resumes final here => exact settled_resume inv here
 | uploads p fault flying =>
  obtain ⟨results, uploadErr, is⟩ := finishUpload_frame st p fault
  rw [is]
  exact settled
 | drains here idle =>
  rw [here] at settled
  exact settled_drain settled
 | publishes here =>
  rw [here] at settled
  exact settled_publish inv here settled
 | _ => trivial

theorem settled_run {events : List Event} (inv : Inv env cfg boundary data st)
  (settled : Settled env cfg boundary data st st.phase)
  (ends : run env cfg st events = some st') : Settled env cfg boundary data st' st'.phase := by
 have keeps : ∀ t u, Inv env cfg boundary data t ∧ Settled env cfg boundary data t t.phase →
   Transition env cfg t u →
   Inv env cfg boundary data u ∧ Settled env cfg boundary data u u.phase :=
  fun t u held happens =>
   ⟨inv_transition held.1 happens, settled_transition held.1 held.2 happens⟩
 exact (run_keeps ⟨inv, settled⟩ keeps ends).2

end Ended

variable {events : List Event} {digest : Str}

variable {boundary : LayerBoundary}

theorem streamLayout_eq {env : StreamEnv} {cfg : StreamConfig} {data : List Bytes}
  (ends : run env cfg (StreamState.start boundary data) events = some st)
  (finished : st.phase = .finished (.ok digest)) :
  st.rows = (wholeCut env cfg boundary data).flatMap layerRows ∧
   st.layerInfo = layersFrom 0 0 (wholeCut env cfg boundary data) ∧ st.chunkIdx = data.length ∧
   st.boundaryFallback = fallenBack (policyOf cfg) (wholeCut env cfg boundary data) := by
 have settled := settled_run (inv_start env cfg boundary data) trivial ends
 rw [finished] at settled
 exact settled

variable {env : Env} {senv : StreamEnv} {feed : Feed}

theorem layouts_agree (same : SameParameters cfg scfg) (store : env.store = senv.store)
  (built : buildWith env cfg feed boundary = (b, .ok ()))
  (ends : run senv scfg (StreamState.start boundary feed.data) events = some st)
  (finished : st.phase = .finished (.ok digest)) :
  localLayout cfg b = streamLayout scfg st ↔ feed.data.length < 4294967296 := by
 have tables := built_of_buildWith built
 obtain ⟨rows, layers, count, fallback⟩ := streamLayout_eq ends finished
 have groups : cut (rolls (Backup.Pipeline.policyOf cfg) boundary)
  (storedChunks env.store (number 0 feed.data)) =
   wholeCut senv scfg boundary feed.data := by
  rw [wholeCut, same.policy, store]
 constructor
 · intro equal
   have counts := congrArg (fun layout => layout.chunking.count) equal
   simp only [localLayout, streamLayout, Backup.Pipeline.chunkingInfo, chunkingInfo,
    chunkingOf_count] at counts
   rw [count, tables.counter] at counts
   have wrapped : (UInt32.ofNat feed.data.length).toNat = feed.data.length := by
    exact_mod_cast counts
   rw [← wrapped]
   exact (UInt32.ofNat feed.data.length).toNat_lt
 · intro small
   rw [localLayout, streamLayout, Layout.mk.injEq]
   refine ⟨by rw [tables.rows small, groups, rows], by rw [tables.layers small, groups, layers], ?_⟩
   apply same.chunkingInfo_eq
   · rw [tables.counter, count, UInt32.toNat_ofNat_of_lt' small]
   · rw [tables.fallback, groups, same.policy, fallback]

structure Quiet (env : Env) : Prop where
 newSealer : env.newSealer = none
 cancelled : ∀ i, env.cancelled i = none
 createSpool : ∀ i, env.createSpool i = none
 writeSpool : ∀ i, env.writeSpool i = none
 digestSpool : ∀ i, env.digestSpool i = none
 closeSpool : ∀ i, env.closeSpool i = none
 fileLayer : ∀ i, env.fileLayer i = none

def Stores (store : Store) (cks : List PlainChunk) : Prop :=
 ∀ ck ∈ cks, ∃ stored, storedOf store ck = .ok stored

section Local

variable {env : Env} {cfg : Config} {feed : Feed} {boundary : LayerBoundary} (quiet : Quiet env)
 (split : feed.splitErr = none) (archived : feed.archiveErr = none)

include quiet split archived

theorem smooth_quiet {cks : List PlainChunk} {c : Cutting StoredChunk}
  (stores : Stores env.store cks) (counted : (c.items.length + cks.length) % 4294967296 ≠ 0) :
  Smooth env cfg feed boundary c cks := by
 have closes (n : Nat) : Closes env n :=
  ⟨quiet.digestSpool n, quiet.closeSpool n, quiet.fileLayer n⟩
 induction cks generalizing c with
 | nil => exact ⟨split, archived, counted, fun _ => closes _⟩
 | cons ck rest ih =>
  obtain ⟨stored, storedIs⟩ := stores ck List.mem_cons_self
  have takes : Takes env c ⟨ck, stored⟩ :=
   ⟨quiet.cancelled _, storedIs, fun _ => quiet.createSpool _, quiet.writeSpool _⟩
  refine ⟨stored, takes, fun _ => closes _,
   ih (fun c inside => stores c (List.mem_cons_of_mem ck inside)) ?_⟩
  rwa [Cutting.items_step, List.length_append, List.length_singleton, Nat.add_assoc, Nat.add_comm 1]

theorem buildWith_quiet (sizes : ¬ BadSize cfg) (stores : Stores env.store (number 0 feed.data))
  (counted : feed.data.length % 4294967296 ≠ 0) :
  ∃ b, buildWith env cfg feed boundary = (b, .ok ()) := by
 have smooth : Smooth env cfg feed boundary .empty (number 0 feed.data) := by
  apply smooth_quiet quiet split archived stores
  have nothing : (Cutting.empty : Cutting StoredChunk).items.length = 0 := rfl
  rwa [nothing, number_length, Nat.zero_add]
 rcases buildWith_cases env cfg feed boundary with ⟨-, -, b, built, -⟩ | ⟨unable, -⟩
 · exact ⟨b, built⟩
 · exact ((unable smooth).elim sizes fun refused => refused quiet.newSealer).elim

end Local

section Streamed

variable {env : StreamEnv} {cfg : StreamConfig}

variable {st : StreamState}

theorem run_append {mid st' : StreamState} {first second : List Event}
  (before : run env cfg st first = some mid) (after : run env cfg mid second = some st') :
  run env cfg st (first ++ second) = some st' := by
 induction first generalizing st with
 | nil =>
  cases before
  exact after
 | cons event rest ih =>
  simp only [List.cons_append, run] at before ⊢
  cases happens : step env cfg st event with
  | none => simp [happens] at before
  | some next =>
   simp only [happens] at before ⊢
   exact ih before

/-- The receiver waits for a chunk, the uploader is idle, and there is room for a layer. -/
structure Waiting (st : StreamState) : Prop where
 phase : st.phase = .receiving
 idle : st.uploader = none
 fine : st.uploadErr = none
 room : st.layerCount < maxDataLayers

def uploaded : List Event := [.handoff, .resume, .upload none]

def afterUpload (cfg : StreamConfig) (st : StreamState) (p : Pending) (next : Phase) :
  StreamState :=
 let st := applyBoundaryFallback cfg { st with phase := next, uploader := none }
 { st with results := st.results ++ [resultOf p] }

theorem run_uploaded {p : Pending} {final : Bool}
  (here : st.phase = .handing p final) (idle : st.uploader = none) (fine : st.uploadErr = none) :
  run env cfg st uploaded =
   some (afterUpload cfg st p (if final then .draining else .receiving)) := by
 simp only [run, uploaded, step, here, idle, applyBoundaryFallback, fine, finishUpload, afterUpload]

theorem layerCount_of_shouldRoll {digest : Bytes}
  (closes : shouldRoll st digest = true) : st.layerCount + 1 < maxDataLayers := by
 unfold shouldRoll at closes
 split at closes
 · cases closes
 · split at closes
   · cases closes
   · omega

theorem roll_hands {s : Spool} (filled : st.spool = some s) (room : st.layerCount < maxDataLayers)
  (final : Bool) :
  ∃ p, (roll st final).phase = .handing p final ∧ (roll st final).uploader = st.uploader ∧
   (roll st final).uploadErr = st.uploadErr ∧ (roll st final).todo = st.todo ∧
   (roll st final).layerCount = st.layerCount + 1 ∧ (roll st final).chunkIdx = st.chunkIdx := by
 have within : ¬ maxDataLayers ≤ st.layerCount := by omega
 unfold roll
 rw [filled]
 dsimp only
 rw [if_neg within]
 exact ⟨_, rfl, rfl, rfl, rfl, rfl, rfl⟩

variable {ck : PlainChunk} {rest : List PlainChunk} {stored : Bytes}

theorem receive_quiet (fine : st.uploadErr = none) (todo : st.todo = ck :: rest)
  (storedIs : storedOf env.store ck = .ok stored) (unlimited : cfg.maxBytes = 0) :
  receive env cfg st =
   if shouldRoll (storeChunk { st with todo := rest } ⟨ck, stored⟩) (sum256 stored) then
    roll (storeChunk { st with todo := rest } ⟨ck, stored⟩) false
   else storeChunk { st with todo := rest } ⟨ck, stored⟩ := by
 unfold receive
 grind

theorem receives_one (waiting : Waiting st)
  (todo : st.todo = ck :: rest) (storedIs : storedOf env.store ck = .ok stored)
  (unlimited : cfg.maxBytes = 0) :
  ∃ events st', run env cfg st events = some st' ∧ Waiting st' ∧ st'.todo = rest := by
 have received := receive_quiet waiting.fine todo storedIs unlimited
 by_cases closes : shouldRoll (storeChunk { st with todo := rest } ⟨ck, stored⟩) (sum256 stored) =
  true
 · rw [if_pos closes] at received
   have reserve := layerCount_of_shouldRoll closes
   have room : (storeChunk { st with todo := rest } ⟨ck, stored⟩).layerCount < maxDataLayers :=
    waiting.room
   obtain ⟨p, phase, idle, fine, left, count, -⟩ := roll_hands rfl room false
   have shipped : run env cfg _ uploaded = some _ :=
    run_uploaded phase (idle.trans waiting.idle) (fine.trans waiting.fine)
   refine ⟨[.receive] ++ uploaded, _, run_append ?_ shipped, ⟨rfl, rfl, ?_, ?_⟩, ?_⟩
   · simp only [run, step, waiting.phase, received]
   · exact fine.trans waiting.fine
   · change (roll _ false).layerCount < _
     rw [count]
     exact reserve
   · exact left
 · rw [if_neg closes] at received
   refine ⟨[.receive], storeChunk { st with todo := rest } ⟨ck, stored⟩, ?_, ?_, rfl⟩
   · simp only [run, step, waiting.phase, received]
   · exact { waiting with }

theorem receives_all (waiting : Waiting st) (stores : Stores env.store st.todo)
  (unlimited : cfg.maxBytes = 0) :
  ∃ events st', run env cfg st events = some st' ∧ Waiting st' ∧ st'.todo = [] := by
 generalize remaining : st.todo = todo at stores
 induction todo generalizing st with
 | nil => exact ⟨[], st, rfl, waiting, remaining⟩
 | cons ck rest ih =>
  obtain ⟨stored, storedIs⟩ := stores ck List.mem_cons_self
  obtain ⟨first, mid, before, waiting', left⟩ := receives_one waiting remaining storedIs unlimited
  obtain ⟨second, st', after, last, empty⟩ :=
   ih waiting' left fun c inside => stores c (List.mem_cons_of_mem ck inside)
  exact ⟨first ++ second, st', run_append before after, last, empty⟩

theorem drains (waiting : Waiting st) (empty : st.todo = []) (split : env.splitErr = none) :
  ∃ events st', run env cfg st events = some st' ∧ st'.phase = .draining ∧ st'.uploader = none ∧
   st'.uploadErr = none := by
 have received : receive env cfg st = roll st true := by
  unfold receive
  split
  · rename_i failed
    rw [waiting.fine] at failed
    cases failed
  · rw [empty]
    dsimp only
    rw [split]
 have first : run env cfg st [.receive] = some (roll st true) := by
  simp only [run, step, waiting.phase, received]
 cases filled : st.spool with
 | none =>
  refine ⟨[.receive], roll st true, first, ?_⟩
  unfold roll
  rw [filled]
  exact ⟨rfl, waiting.idle, waiting.fine⟩
 | some s =>
  obtain ⟨p, phase, idle, fine, -, -, -⟩ := roll_hands filled waiting.room true
  have shipped : run env cfg _ uploaded = some _ :=
   run_uploaded phase (idle.trans waiting.idle) (fine.trans waiting.fine)
  exact ⟨[.receive] ++ uploaded, _, run_append first shipped, rfl, rfl, fine.trans waiting.fine⟩

variable {scan : ScanOutcome}

theorem run_drain (phase : st.phase = .draining)
  (idle : st.uploader = none) (fine : st.uploadErr = none) (scanned : env.scan = .ok scan)
  (counted : ¬ st.chunkIdx = 0) : ∃ st', run env cfg st [.drain] = some st' ∧
  st'.phase = .publishing := by
 refine ⟨drain env st, by simp only [run, step, phase, idle], ?_⟩
 have counted' : ¬ (foldResults st).chunkIdx = 0 := counted
 unfold drain
 split
 · rename_i failed
   rw [fine] at failed
   cases failed
 · rw [scanned]
   dsimp only
   rw [if_neg counted']

theorem run_publish (phase : st.phase = .publishing) (scanned : env.scan = .ok scan)
  (writes : ∀ m t entries, ∃ md, assemble env.writer m t entries = .ok md)
  (commits : ∀ md, ∃ digest, env.commit md = .ok digest) :
  ∃ st' digest, run env cfg st [.publish] = some st' ∧ st'.phase = .finished (.ok digest) := by
 obtain ⟨md, assembled⟩ := writes (manifestOf cfg scan st) ⟨schemaVersion, st.rows⟩ scan.entries
 obtain ⟨digest, committed⟩ := commits md
 refine ⟨publish env cfg st, digest, by simp only [run, step, phase], ?_⟩
 simp only [publish, scanned, assembled, committed]

theorem stream_completes {boundary : LayerBoundary} {data : List Bytes}
  (stores : Stores env.store (number 0 data)) (unlimited : cfg.maxBytes = 0)
  (split : env.splitErr = none) (scanned : env.scan = .ok scan) (some_chunk : data ≠ [])
  (writes : ∀ m t entries, ∃ md, assemble env.writer m t entries = .ok md)
  (commits : ∀ md, ∃ digest, env.commit md = .ok digest) :
  ∃ events st digest, run env cfg (StreamState.start boundary data) events = some st ∧
   st.phase = .finished (.ok digest) := by
 have waiting : Waiting (StreamState.start boundary data) := by
  refine ⟨rfl, rfl, rfl, ?_⟩
  change 0 < maxDataLayers
  decide
 obtain ⟨first, mid, before, waiting', empty⟩ := receives_all waiting stores unlimited
 obtain ⟨second, last, after, phase, idle, fine⟩ := drains waiting' empty split
 have sofar := run_append before after
 obtain ⟨done, received, inPhase⟩ := (inv_run (inv_start env cfg boundary data) sofar).progress
 have counted : ¬ last.chunkIdx = 0 := by
  rw [phase] at inPhase
  have lengths := congrArg List.length received.plains
  rw [inPhase.1, List.append_nil, List.length_map, number_length] at lengths
  rw [received.counter, lengths]
  exact fun none => some_chunk (List.length_eq_zero_iff.mp none)
 obtain ⟨drained, third, phase'⟩ := run_drain phase idle fine scanned counted
 obtain ⟨st, digest, fourth, finished⟩ := run_publish phase' scanned writes commits
 exact ⟨_, st, digest, run_append (run_append sofar third) fourth, finished⟩

end Streamed

/-- A local backup and a streamed one of the same chunks, with the same parameters, store and any
schedule, end with the same rows, layers and chunking exactly when the stream has fewer than 2^32
chunks: the local builder counts them in 32 bits. -/
theorem streamed_layout_iff_local
  (same : SameParameters cfg scfg) (store : env.store = senv.store)
  (built : build env cfg feed = (b, .ok ()))
  (ends : run senv scfg (StreamState.start (initialBoundary scfg.dedup scfg.layerBytes) feed.data)
   events = some st)
  (finished : st.phase = .finished (.ok digest)) :
  localLayout cfg b = streamLayout scfg st ↔ feed.data.length < 4294967296 := by
 rw [build, same.dedup, same.layerBytes] at built
 exact layouts_agree same store built ends finished

def zeroStream (n : Nat) : Feed := ⟨zeros n, none, none, default, []⟩

def zeroStart (n : Nat) : StreamState :=
 .start (initialBoundary streamConfig.dedup streamConfig.layerBytes) (zeros n)

def zeroConfig : Config := { localConfig with maxDataLayers := 118 }

theorem sameParameters_zero : SameParameters zeroConfig streamConfig :=
 ⟨rfl, rfl, rfl, rfl, rfl, rfl⟩

theorem stores_frames (answers : List Bytes) (cks : List PlainChunk) :
  Stores (frames answers) cks := by
 intro ck _
 exact ⟨_, rfl⟩

theorem zeros_end {n : Nat} (counted : n % 4294967296 ≠ 0) : ∃ b events st digest,
   build (localEnv []) zeroConfig (zeroStream n) = (b, .ok ()) ∧
   run (streamEnv []) streamConfig (zeroStart n) events = some st ∧
   st.phase = .finished (.ok digest) := by
 have quiet : Quiet (localEnv []) :=
  ⟨rfl, fun _ => rfl, fun _ => rfl, fun _ => rfl, fun _ => rfl, fun _ => rfl, fun _ => rfl⟩
 have length : (zeros n).length = n := List.length_replicate
 have counted' : (zeroStream n).data.length % 4294967296 ≠ 0 := by
  change (zeros n).length % 4294967296 ≠ 0
  rwa [length]
 have some_chunk : zeros n ≠ [] := by
  intro empty
  rw [empty] at length
  exact counted (by rw [← length]; rfl)
 have sizes : ¬ BadSize zeroConfig := by
  unfold BadSize
  decide
 have locally : ∃ b, build (localEnv []) zeroConfig (zeroStream n) = (b, .ok ()) :=
  buildWith_quiet quiet rfl rfl sizes (stores_frames [] _) counted'
 have streamed : ∃ events st digest, run (streamEnv []) streamConfig (zeroStart n) events =
  some st ∧
   st.phase = .finished (.ok digest) :=
  stream_completes (stores_frames [] _) rfl rfl rfl some_chunk assemble_plainWriter fun _ =>
   ⟨_, rfl⟩
 obtain ⟨b, built⟩ := locally
 obtain ⟨events, st, digest, ends, finished⟩ := streamed
 exact ⟨b, events, st, digest, built, ends, finished⟩

/-- After 2^32 + 1 chunks the local backup declares one chunk and the streamed one all of them. -/
theorem counter_wraps_locally : ∃ b events st digest,
   build (localEnv []) zeroConfig (zeroStream 4294967297) = (b, .ok ()) ∧
   run (streamEnv []) streamConfig (zeroStart 4294967297) events = some st ∧
   st.phase = .finished (.ok digest) ∧ localLayout zeroConfig b ≠ streamLayout streamConfig st := by
 obtain ⟨b, events, st, digest, built, ends, finished⟩ := zeros_end (n := 4294967297) (by decide)
 refine ⟨b, events, st, digest, built, ends, finished, ?_⟩
 intro equal
 have small := (layouts_agree sameParameters_zero rfl built ends finished).mp equal
 have length : (zeroStream 4294967297).data.length = 4294967297 := List.length_replicate
 omega

theorem two_chunks_agree : ∃ b events st digest, build (localEnv []) zeroConfig (zeroStream 2) =
  (b, .ok ()) ∧
   run (streamEnv []) streamConfig (zeroStart 2) events = some st ∧
   st.phase = .finished (.ok digest) ∧ localLayout zeroConfig b = streamLayout streamConfig st := by
 obtain ⟨b, events, st, digest, built, ends, finished⟩ := zeros_end (n := 2) (by decide)
 refine ⟨b, events, st, digest, built, ends, finished, ?_⟩
 have length : (zeroStream 2).data.length = 2 := List.length_replicate
 exact (streamed_layout_iff_local sameParameters_zero rfl built ends finished).mpr (by omega)

end BackImage.Server.LayoutAgreement
