/- source: pkg/server/stream.go
  digest: The two goroutines of a stream call by call, with the channel and the files between
    them. -/

import BackImage.Backup.Pipeline
import BackImage.Lib.Transitions
import BackImage.Server.Stream

namespace BackImage.Server.Goroutines

open Chunk.Boundary Go.Sha256 Go.Text Index.CutTables Lib.Transitions
open Backup.Pipeline (TempFile)
open Server.Stream (StreamConfig StreamEnv StreamError StreamState Pending Phase maxDataLayers
 resultOf shouldRoll applyBoundaryFallback)

inductive Call
 | digest
 | close
 | newFileLayer
 | layerDescriptor
 | upload
 deriving DecidableEq

inductive Uploader
 | absent
 | waiting
 | took (p : Pending)
 | finishing (p : Pending) (next : Call)
 | failing (p : Pending) (cause : Str)
 | stopped
 deriving DecidableEq

def Uploader.layer : Uploader → Option Pending
 | .took p => some p
 | .finishing p _ => some p
 | .failing p _ => some p
 | _ => none

/-- The goroutine of `startIngest`: before the splitter is made, in `run`, after a splitter that
could not be made, and after `cleanup`. -/
inductive Stage
 | opening
 | running
 | refused
 | cleaned
 deriving DecidableEq

inductive Landing
 | existing
 | uploaded
 deriving DecidableEq

/-- A session: the pipeline's own state, the channel, the file behind `b.spool` and those on disk;
and what was sent, received and uploaded so far. -/
structure Session where
 core : StreamState
 stage : Stage
 uploader : Uploader
 closed : Bool
 spoolFile : Option Nat
 disk : List TempFile
 handed : List Pending
 taken : List Pending
 landed : List (Pending × Landing)

def Session.start (boundary : LayerBoundary) (data : List Bytes) : Session where
 core := .start boundary data
 stage := .opening
 uploader := .absent
 closed := false
 spoolFile := none
 disk := []
 handed := []
 taken := []
 landed := []

inductive SpoolAnswer
 | fine
 | createFails (cause : Str)
 | writeFails (cause : Str)
 deriving DecidableEq

def begin (cfg : StreamConfig) (s : Session) : Session :=
 if cfg.dedup = false ∧ (cfg.chunkBytes < minChunkSize ∨ maxChunkSize < cfg.chunkBytes) then
  { s with stage := .refused }
 else { s with stage := .running, uploader := .waiting }

def Session.abort (s : Session) (cause : StreamError) : Session :=
 { s with core := { s.core with phase := .aborting cause } }

def openSpool (s : Session) : Session :=
 match s.spoolFile with
 | some _ => s
 | none =>
  { s with spoolFile := some s.core.layerCount, disk := .spool s.core.layerCount :: s.disk }

def storeChunk (s : Session) (rest : List PlainChunk) (stored : StoredChunk) : Session :=
 { openSpool s with core := Stream.storeChunk { s.core with todo := rest } stored }

def roll (s : Session) (final : Bool) : Session :=
 let core := Stream.roll s.core final
 match core.phase with
 | .handing p _ => { s with core := core, spoolFile := none, handed := s.handed ++ [p] }
 | _ => { s with core := core }

/-- One turn of the loop of `run`. -/
def receive (env : StreamEnv) (cfg : StreamConfig) (answer : SpoolAnswer) (s : Session) : Session :=
 match s.core.uploadErr with
 | some e => s.abort (.upload e)
 | none =>
  match s.core.todo with
  | [] =>
   match env.splitErr with
   | some e => s.abort (.split e)
   | none => roll s true
  | ck :: rest =>
   match storedOf env.store ck with
   | .error e => s.abort (.store e)
   | .ok stored =>
    match s.spoolFile, answer with
    | none, .createFails e => s.abort (.spool e)
    | _, .writeFails e => (openSpool s).abort (.spool e)
    | _, _ =>
     let s := storeChunk s rest ⟨ck, stored⟩
     if 0 < cfg.maxBytes ∧ cfg.maxBytes < s.core.plain.toUInt64 then
      s.abort (.quota s.core.plain cfg.maxBytes)
     else if shouldRoll s.core (sum256 stored) then roll s false
     else s

def Call.built : Call → Bool
 | .layerDescriptor => true
 | .upload => true
 | _ => false

def release (p : Pending) (call : Call) (disk : List TempFile) : List TempFile :=
 let disk := if call.built then disk.erase (.layer p.index) else disk
 disk.erase (.spool p.spool.idx)

def advance (s : Session) (p : Pending) : Call → Session
 | .digest => { s with uploader := .finishing p .close }
 | .close => { s with uploader := .finishing p .newFileLayer }
 | .newFileLayer =>
  { s with uploader := .finishing p .layerDescriptor, disk := .layer p.index :: s.disk }
 | .layerDescriptor => { s with uploader := .finishing p .upload }
 | .upload => s

/-- A call of `finishLayer` that fails. -/
def breakOff (s : Session) (p : Pending) (call : Call) (cause : Str) : Session :=
 { s with uploader := .failing p cause, disk := release p call s.disk }

def land (s : Session) (p : Pending) (landing : Landing) : Session :=
 { s with
   core := { s.core with uploader := none, results := s.core.results ++ [resultOf p] }
   uploader := .waiting
   disk := release p .upload s.disk
   landed := s.landed ++ [(p, landing)] }

def skip (s : Session) (p : Pending) : Session :=
 { s with
   core := { s.core with uploader := none }
   uploader := .waiting
   disk := s.disk.erase (.spool p.spool.idx) }

def setFailure (s : Session) (cause : Str) : Session :=
 { s with
   core := { s.core with uploader := none, uploadErr := s.core.uploadErr.or (some cause) }
   uploader := .waiting }

inductive Event
 | begin
 | receive (answer : SpoolAnswer)
 | cancel (cause : Str)
 | handoff
 | resume
 | look
 | call (fault : Option Str)
 | upload (answer : Except Str Landing)
 | setFailure
 | close
 | stop
 | drain
 | publish
 | abort
 | cleanup
 deriving DecidableEq

def stopping : Phase → Bool
 | .draining => true
 | .aborting _ => true
 | .finished _ => true
 | _ => false

def cleanup (s : Session) : Session :=
 match s.spoolFile with
 | some f => { s with stage := .cleaned, spoolFile := none, disk := s.disk.erase (.spool f) }
 | none => { s with stage := .cleaned }

/-- One step; `none` where the event cannot happen. Between two looks at what it shares a goroutine
makes one step, and so do a send and the receive that answers it: the channel is not buffered. -/
def step (env : StreamEnv) (cfg : StreamConfig) (event : Event) (s : Session) : Option Session :=
 match event with
 | .begin =>
  match s.stage with
  | .opening => some (begin cfg s)
  | _ => none
 | .receive answer =>
  match s.stage, s.core.phase with
  | .running, .receiving => some (receive env cfg answer s)
  | _, _ => none
 | .cancel cause =>
  match s.stage, s.core.phase with
  | .running, .receiving => some (s.abort (.cancelled cause))
  | _, _ => none
 | .handoff =>
  match s.core.phase, s.uploader, s.closed with
  | .handing p final, .waiting, false =>
   some { s with
    core := applyBoundaryFallback cfg { s.core with phase := .handed final, uploader := some p }
    uploader := .took p
    taken := s.taken ++ [p] }
  | _, _, _ => none
 | .resume =>
  match s.core.phase with
  | .handed final =>
   match s.core.uploadErr with
   | some e => some (s.abort (.upload e))
   | none =>
    some { s with core := { s.core with phase := if final then .draining else .receiving } }
  | _ => none
 | .look =>
  match s.uploader with
  | .took p =>
   match s.core.uploadErr with
   | some _ => some (skip s p)
   | none => some { s with uploader := .finishing p .digest }
  | _ => none
 | .call fault =>
  match s.uploader with
  | .finishing p next =>
   if next = .upload then none
   else
    match fault with
    | some e => some (breakOff s p next e)
    | none => some (advance s p next)
  | _ => none
 | .upload answer =>
  match s.uploader with
  | .finishing p .upload =>
   match answer with
   | .error e => some (breakOff s p .upload e)
   | .ok landing => some (land s p landing)
  | _ => none
 | .setFailure =>
  match s.uploader with
  | .failing _ cause => some (setFailure s cause)
  | _ => none
 | .close =>
  if s.stage = .running ∧ stopping s.core.phase ∧
   s.closed = false then some { s with closed := true } else none
 | .stop =>
  match s.uploader, s.closed with
  | .waiting, true => some { s with uploader := .stopped }
  | _, _ => none
 | .drain =>
  match s.core.phase, s.uploader with
  | .draining, .stopped => some { s with core := Stream.drain env s.core }
  | _, _ => none
 | .publish =>
  match s.core.phase with
  | .publishing => some { s with core := Stream.publish env cfg s.core }
  | _ => none
 | .abort =>
  match s.core.phase, s.uploader with
  | .aborting e, .stopped => some { s with core := { s.core with phase := .finished (.error e) } }
  | _, _ => none
 | .cleanup =>
  match s.stage, s.core.phase, s.uploader with
  | .refused, _, .absent => some (cleanup s)
  | .running, .finished _, .stopped => some (cleanup s)
  | _, _, _ => none

def run (env : StreamEnv) (cfg : StreamConfig) (events : List Event) (s : Session) :
  Option Session :=
 exec (step env cfg) events s

def Turn (env : StreamEnv) (cfg : StreamConfig) (s s' : Session) : Prop :=
 s.stage = .running ∧ s.core.phase = .receiving ∧
  ((∃ answer, s' = receive env cfg answer s) ∨ ∃ cause, s' = s.abort (.cancelled cause))

/-- The steps again, one constructor for each thing that can happen and what it depends on. -/
inductive Move (env : StreamEnv) (cfg : StreamConfig) (s : Session) : Session → Prop
 | refused (stage : s.stage = .opening) : Move env cfg s { s with stage := .refused }
 | begun (stage : s.stage = .opening) :
   Move env cfg s { s with stage := .running, uploader := .waiting }
 | givesUp (cause : StreamError) (turn : Turn env cfg s (s.abort cause)) :
   Move env cfg s (s.abort cause)
 | spoolFails (cause : StreamError) (turn : Turn env cfg s ((openSpool s).abort cause)) :
   Move env cfg s ((openSpool s).abort cause)
 | ends (turn : Turn env cfg s (roll s true)) (todo : s.core.todo = [])
   (clean : env.splitErr = none) : Move env cfg s (roll s true)
 | exceeds (cause : StreamError) (ck : PlainChunk) (rest : List PlainChunk) (stored : Bytes)
   (turn : Turn env cfg s ((storeChunk s rest ⟨ck, stored⟩).abort cause))
    (todo : s.core.todo = ck :: rest) :
   Move env cfg s ((storeChunk s rest ⟨ck, stored⟩).abort cause)
 | stores (ck : PlainChunk) (rest : List PlainChunk) (stored : Bytes)
   (turn : Turn env cfg s (storeChunk s rest ⟨ck, stored⟩)) (todo : s.core.todo = ck :: rest) :
   Move env cfg s (storeChunk s rest ⟨ck, stored⟩)
 | rolls (ck : PlainChunk) (rest : List PlainChunk) (stored : Bytes)
   (turn : Turn env cfg s (roll (storeChunk s rest ⟨ck, stored⟩) false))
    (todo : s.core.todo = ck :: rest) :
   Move env cfg s (roll (storeChunk s rest ⟨ck, stored⟩) false)
 | hands (p : Pending) (final : Bool) (phase : s.core.phase = .handing p final)
   (uploader : s.uploader = .waiting)
   (closed : s.closed = false) :
   Move env cfg s { s with
    core := applyBoundaryFallback cfg { s.core with phase := .handed final, uploader := some p }
    uploader := .took p
    taken := s.taken ++ [p] }
 | failed (cause : Str) (final : Bool) (phase : s.core.phase = .handed final)
   (failure : s.core.uploadErr = some cause) : Move env cfg s (s.abort (.upload cause))
 | resumes (final : Bool) (phase : s.core.phase = .handed final) (calm : s.core.uploadErr = none) :
   Move env cfg s { s with core :=
    { s.core with phase := if final then .draining else .receiving } }
 | skips (p : Pending) (cause : Str) (uploader : s.uploader = .took p)
   (failure : s.core.uploadErr = some cause) : Move env cfg s (skip s p)
 | looks (p : Pending) (uploader : s.uploader = .took p) (calm : s.core.uploadErr = none) :
   Move env cfg s { s with uploader := .finishing p .digest }
 | advances (p : Pending) (next : Call) (uploader : s.uploader = .finishing p next)
   (other : next ≠ .upload) : Move env cfg s (advance s p next)
 | breaks (p : Pending) (next : Call) (cause : Str) (uploader : s.uploader = .finishing p next) :
   Move env cfg s (breakOff s p next cause)
 | lands (p : Pending) (landing : Landing) (uploader : s.uploader = .finishing p .upload) :
   Move env cfg s (land s p landing)
 | reports (p : Pending) (cause : Str) (uploader : s.uploader = .failing p cause) :
   Move env cfg s (setFailure s cause)
 | closes (stage : s.stage = .running) (phase : stopping s.core.phase = true)
   (closed : s.closed = false) : Move env cfg s { s with closed := true }
 | stops (uploader : s.uploader = .waiting) (closed : s.closed = true) :
   Move env cfg s { s with uploader := .stopped }
 | drains (phase : s.core.phase = .draining) (uploader : s.uploader = .stopped) :
   Move env cfg s { s with core := Stream.drain env s.core }
 | publishes (phase : s.core.phase = .publishing) :
   Move env cfg s { s with core := Stream.publish env cfg s.core }
 | aborts (cause : StreamError) (phase : s.core.phase = .aborting cause)
   (uploader : s.uploader = .stopped) :
   Move env cfg s { s with core := { s.core with phase := .finished (.error cause) } }
 | cleans (returned : s.stage = .refused ∧ s.uploader = .absent ∨
    s.stage = .running ∧ (∃ outcome, s.core.phase = .finished outcome) ∧ s.uploader = .stopped) :
   Move env cfg s (cleanup s)

section Moves

variable {env : StreamEnv} {cfg : StreamConfig} {s s' : Session}

theorem receive_moves {answer : SpoolAnswer} (stage : s.stage = .running)
  (phase : s.core.phase = .receiving) :
  Move env cfg s (receive env cfg answer s) := by
 have turn : Turn env cfg s (receive env cfg answer s) := ⟨stage, phase, .inl ⟨answer, rfl⟩⟩
 revert turn
 unfold receive
 split
 · exact .givesUp _
 · split
   · rename_i todo
     split
     · exact .givesUp _
     · rename_i clean
       exact fun turn => .ends turn todo clean
   · rename_i ck rest todo
     split
     · exact .givesUp _
     · rename_i stored _
       split
       · exact .givesUp _
       · exact .spoolFails _
       · dsimp only
         split
         · exact fun turn => .exceeds _ ck rest stored turn todo
         · split
           · exact fun turn => .rolls ck rest stored turn todo
           · exact fun turn => .stores ck rest stored turn todo

theorem step_moves {event : Event} (happens : step env cfg event s = some s') :
  Move env cfg s s' := by
 cases event <;> dsimp only [step] at happens
 case begin =>
  split at happens
  · rename_i stage
    cases happens
    unfold begin
    split
    · exact .refused stage
    · exact .begun stage
  · cases happens
 case receive answer =>
  split at happens
  · rename_i stage phase
    cases happens
    exact receive_moves stage phase
  · cases happens
 case cancel cause =>
  split at happens
  · rename_i stage phase
    cases happens
    exact .givesUp _ ⟨stage, phase, .inr ⟨cause, rfl⟩⟩
  · cases happens
 case handoff =>
  split at happens
  · rename_i phase uploader closed
    cases happens
    exact .hands _ _ phase uploader closed
  · cases happens
 case resume =>
  split at happens
  · rename_i final phase
    split at happens
    · rename_i cause failure
      cases happens
      exact .failed cause final phase failure
    · rename_i calm
      cases happens
      exact .resumes final phase calm
  · cases happens
 case look =>
  split at happens
  · rename_i p uploader
    split at happens
    · rename_i cause failure
      cases happens
      exact .skips p cause uploader failure
    · rename_i calm
      cases happens
      exact .looks p uploader calm
  · cases happens
 case call fault =>
  split at happens
  · rename_i p next uploader
    split at happens
    · cases happens
    · rename_i other
      split at happens
      · cases happens
        exact .breaks p next _ uploader
      · cases happens
        exact .advances p next uploader other
  · cases happens
 case upload answer =>
  split at happens
  · rename_i p uploader
    split at happens
    · cases happens
      exact .breaks p .upload _ uploader
    · cases happens
      exact .lands p _ uploader
  · cases happens
 case setFailure =>
  split at happens
  · rename_i p cause uploader
    cases happens
    exact .reports p cause uploader
  · cases happens
 case close =>
  split at happens
  · rename_i guards
    cases happens
    exact .closes guards.1 guards.2.1 guards.2.2
  · cases happens
 case stop =>
  split at happens
  · rename_i uploader closed
    cases happens
    exact .stops uploader closed
  · cases happens
 case drain =>
  split at happens
  · rename_i phase uploader
    cases happens
    exact .drains phase uploader
  · cases happens
 case publish =>
  split at happens
  · rename_i phase
    cases happens
    exact .publishes phase
  · cases happens
 case abort =>
  split at happens
  · rename_i cause phase uploader
    cases happens
    exact .aborts cause phase uploader
  · cases happens
 case cleanup =>
  split at happens
  · rename_i stage uploader
    cases happens
    exact .cleans (.inl ⟨stage, uploader⟩)
  · rename_i outcome stage phase uploader
    cases happens
    exact .cleans (.inr ⟨stage, ⟨outcome, phase⟩, uploader⟩)
  · cases happens

theorem roll_core_cases (st : StreamState) (final : Bool) :
  (st.spool = none ∧ Stream.roll st final =
   { st with phase := if final then .draining else .receiving }) ∨
   Stream.roll st final = { st with phase := .aborting (.layerLimit maxDataLayers) } ∨
   ∃ spool, st.spool = some spool ∧ Stream.roll st final =
    { st with
      phase := .handing ⟨spool, st.layerCount, st.nextFrom, (st.chunkIdx : Int) - 1⟩ final
      spool := none
      nextFrom := st.chunkIdx
      layerCount := st.layerCount + 1 } := by
 unfold Stream.roll
 split
 · rename_i missing
   exact .inl ⟨missing, rfl⟩
 · rename_i spool current
   split
   · exact .inr (.inl rfl)
   · exact .inr (.inr ⟨spool, current, rfl⟩)

theorem roll_cases (s : Session) (final : Bool) : (s.core.spool = none ∧
    roll s final =
    { s with core := { s.core with phase := if final then .draining else .receiving } }) ∨
   (∃ cause, roll s final = s.abort cause) ∨
   ∃ p count, s.core.spool = some p.spool ∧ roll s final =
    { s with
      core := { s.core with
       phase := .handing p final, spool := none, nextFrom := s.core.chunkIdx, layerCount := count }
      spoolFile := none
      handed := s.handed ++ [p] } := by
 unfold roll
 rcases roll_core_cases s.core final with ⟨missing, goes_on⟩ | fails | ⟨spool, current, sends⟩
 · rw [goes_on]
   cases final <;> exact .inl ⟨missing, rfl⟩
 · rw [fails]
   exact .inr (.inl ⟨_, rfl⟩)
 · rw [sends]
   exact .inr (.inr ⟨_, _, current, rfl⟩)

end Moves

end BackImage.Server.Goroutines
