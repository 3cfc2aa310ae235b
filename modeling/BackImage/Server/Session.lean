/- source: pkg/server/session.go, pkg/server/session_stream.go
  digest: A session of the backup server: one state machine over frames, with every call it
    makes. -/

import BackImage.Go.Glob
import BackImage.Server.RegistrySink
import BackImage.Server.Stream

namespace BackImage.Server.Session

open Go.Glob Go.Sha256 Go.Text Lib.Sequence Protocol.Frames RegistrySink
open Server.Stream (maxDataLayers)

universe u

variable {W : Type u}

structure SessionConfig where
 version : Str
 authToken : Bytes
 allowedRepos : List Str
 maxBytes : UInt64
 rateLimit : UInt64
 decode : Bytes → Except Str ClientMessage

inductive SessionState
 | new
 | greeted
 | ready
 | receiving
 | streaming
 | closed
 deriving DecidableEq

inductive ErrorKind
 | generic
 | usage
 | auth
 | integrity
 | network
 deriving DecidableEq

inductive Complaint
 | text (t : Str)
 | unexpected (message : Str) (state : SessionState)
 | incompatible (client : UInt32)
 | notAllowed (reference : Str)
 | estimate (bytes quota : UInt64)
 | layerCount (announced : UInt32)
 | quota (bytes quota : UInt64)
 | layerSize (received : Int64) (declared : UInt64)
 | streamSize (received declared : UInt64)
 deriving DecidableEq

structure ProtocolError where
 kind : ErrorKind
 message : Complaint
 hint : Str
 deriving DecidableEq

inductive ServerMessage
 | helloAck (ack : HelloAck)
 | backupAck (request : Option TokenRequest)
 | layerAck (index : UInt32) (skipped : Bool)
 | progress (layer : UInt32) (uploaded : UInt64) (skipped : Bool)
 | backupEnd (m : BackupEnd)
 | streamAck (request : Option TokenRequest)
 | streamProgress
 | error (e : ProtocolError)
 deriving DecidableEq

/-- Why `Run` returns an error. -/
inductive Failure
 | context (cause : Str)
 | deadline (cause : Str)
 | reading (cause : Str)
 | sending (cause : Str)
 | waiting (cause : Str)
 | cancelled (reason : Str)
 | client (message : Str)
 | protocol (e : ProtocolError) (report : Option Str)
 deriving DecidableEq

inductive Ending
 | returned
 | failed (f : Failure)
 | panicked
 | crashed
 deriving DecidableEq

inductive Event
 | call (c : Call)
 | startIngest (start : StreamStart) (error : Option Str)
 | feedIngest (payload : Bytes) (error : Option Str)
 | finishIngest (error : Option Str)
 | abortIngest
 | sent (m : ServerMessage) (error : Option Str)
 deriving DecidableEq

structure Held (W : Type u) where
 call : Nat
 value : W

structure RunState (W : Type u) where
 state : SessionState
 version : UInt32
 sessionId : Str
 start : Option BackupStart
 reference : Str
 layers : List Layer
 current : Option LayerStart
 receiver : Option (Held W)
 hashed : Bytes
 received : Int64
 totalBytes : UInt64
 skipped : Bool
 skipCount : UInt32
 ingest : Bool
 uploadFailed : Bool
 lastProgress : Int
 opened : Nat
 log : List Event

def RunState.fresh (now : Int) : RunState W where
 state := .new
 version := 0
 sessionId := []
 start := none
 reference := []
 layers := []
 current := none
 receiver := none
 hashed := []
 received := 0
 totalBytes := 0
 skipped := false
 skipCount := 0
 ingest := false
 uploadFailed := false
 lastProgress := now
 opened := 0
 log := []

def RunState.note (rs : RunState W) (e : Event) : RunState W := { rs with log := rs.log ++ [e] }

def RunState.noteCalls (rs : RunState W) (calls : List Call) : RunState W :=
 { rs with log := rs.log ++ calls.map .call }

structure PipelineError where
 aborted : Bool
 text : Str
 deriving DecidableEq

/-- What is answered while one frame is handled: by the sink, the client's end of the stream (to two
messages), the wait for the rate limit, and the pipeline. -/
structure Answers (W : Type u) where
 sink : Sink W
 first : Option Str
 second : Option Str
 waiting : Option Str
 startIngest : StreamStart → Option Str
 feedIngest : Bytes → Option PipelineError
 finishIngest : Except PipelineError BackupEnd

/-- One turn of the loop of `Run`: what the context, the deadline and `ReadFrame` say, the clock,
and the layers the pipeline of a stream, if one runs, uploads meanwhile. -/
structure Turn (W : Type u) where
 cancelled : Option Str
 deadline : Option Str
 frame : Except Str (Option FrameType × Bytes)
 now : Int
 uploads : List LayerUpload
 answers : Answers W

def Turn.trouble (t : Turn W) : Option Failure :=
 (t.cancelled.map Failure.context).or (t.deadline.map Failure.deadline)

abbrev Step (W : Type u) := RunState W × Option Ending

section Handlers

variable (cfg : SessionConfig) (a : Answers W) (rs : RunState W)

def stopIngest : RunState W :=
 if rs.ingest then { rs.note .abortIngest with ingest := false } else rs

def abort : RunState W × Bool :=
 let rs := stopIngest rs
 match rs.receiver with
 | none => (rs, false)
 | some held =>
  match a.sink.writer.abort held.value with
  | none => (rs.note (.call (.abort held.call none)), true)
  | some (_, e) => ({ rs.note (.call (.abort held.call (some e))) with receiver := none }, false)

def stop (f : Failure) : RunState W × Ending :=
 match abort a rs with
 | (rs, true) => (rs, .panicked)
 | (rs, false) => (rs, .failed f)

def dismiss (f : Failure) : Step W :=
 match abort a rs with
 | (rs, true) => (rs, some .panicked)
 | (rs, false) => ({ rs with state := .closed }, some (.failed f))

def fail (a : Answers W) (report : Option Str) (rs : RunState W) (e : ProtocolError) : Step W :=
 match abort a rs with
 | (rs, true) => (rs, some .panicked)
 | (rs, false) =>
  ({ rs.note (.sent (.error e) report) with state := .closed },
   some (.failed (.protocol e report)))

def send (m : ServerMessage) (answer : Option Str) : Step W :=
 (rs.note (.sent m answer), answer.map fun e => .failed (.sending e))

def usage (t : String) : ProtocolError := ⟨.usage, .text (lit t), []⟩

def unexpected (message : String) : ProtocolError :=
 ⟨.usage, .unexpected (lit message) rs.state, []⟩

def isSpace (r : Nat) : Bool :=
 (9 ≤ r && r ≤ 13) || r = 32 || r = 0x85 || r = 0xA0 || r = 0x1680 ||
  (0x2000 ≤ r && r ≤ 0x200A) || r = 0x2028 || r = 0x2029 || r = 0x202F || r = 0x205F || r = 0x3000

def blankFuel : Nat → Str → Bool
 | 0, s => s.isEmpty
 | n + 1, s =>
  s.isEmpty || (isSpace (decodeRune s).1 && blankFuel n (s.drop (decodeRune s).2))

/-- `strings.TrimSpace` leaves nothing. -/
def blank (s : Str) : Bool := blankFuel s.length s

def repoAllowed (ref : Str) (prefixes : List Str) : Bool :=
 prefixes.isEmpty || prefixes.any (hasPrefix ref)

def hexDigitByte (c : UInt8) : Bool :=
 (48 ≤ c && c ≤ 57) || (97 ≤ c && c ≤ 102) || (65 ≤ c && c ≤ 70)

def validDigest (s : Str) : Bool :=
 hasPrefix s (lit "sha256:") && s.length = 71 && (trimPrefix s (lit "sha256:")).all hexDigitByte

def overQuota (bytes : UInt64) : Bool := 0 < cfg.maxBytes && cfg.maxBytes < bytes

def checkHello (hello : Option Hello) : Except ProtocolError Hello :=
 if rs.state ≠ .new then .error (unexpected rs "Hello")
 else
  match hello with
  | none => .error (usage "Hello.session_id is required")
  | some m =>
   if blank m.sessionId then .error (usage "Hello.session_id is required")
   else if supported m.protocolVersion = false then
    .error ⟨.usage, .incompatible m.protocolVersion, lit "upgrade client or server"⟩
   else if cfg.authToken ≠ [] ∧ m.authToken ≠ cfg.authToken then
    .error ⟨.auth, .text (lit "client authentication failed"), lit "check --auth-token"⟩
   else .ok m

def checkBackupStart (start : Option BackupStart) : Except ProtocolError BackupStart :=
 if rs.state ≠ .greeted then .error (unexpected rs "BackupStart")
 else
  match start with
  | none => .error (usage "BackupStart requires reference and layer_count")
  | some m =>
   if m.reference = [] ∨ m.layerCount = 0 then
    .error (usage "BackupStart requires reference and layer_count")
   else if repoAllowed m.reference cfg.allowedRepos = false then
    .error ⟨.auth, .notAllowed m.reference, lit "check --allow-repo"⟩
   else if overQuota cfg m.estimatedBytes then
    .error ⟨.usage, .estimate m.estimatedBytes cfg.maxBytes, []⟩
   else if maxDataLayers < m.layerCount.toNat then
    .error ⟨.usage, .layerCount m.layerCount, []⟩
   else .ok m

def checkLayerStart (start : Option LayerStart) : Except ProtocolError LayerStart :=
 if rs.state ≠ .ready then .error (unexpected rs "LayerStart")
 else
  match start with
  | none => .error (usage "invalid or out-of-order LayerStart")
  | some m =>
   if m.index ≠ UInt32.ofNat rs.layers.length ∨ m.size = 0 ∨ validDigest m.sha256 = false then
    .error (usage "invalid or out-of-order LayerStart")
   else if overQuota cfg (rs.totalBytes + m.size) then
    .error ⟨.usage, .quota (rs.totalBytes + m.size) cfg.maxBytes, []⟩
   else .ok m

def checkData (payload : Bytes) : Except ProtocolError Unit :=
 let refused : ProtocolError :=
  ⟨.usage, .text (lit "unexpected Data frame"), lit "send LayerStart and wait for LayerAck"⟩
 match rs.current with
 | none => .error refused
 | some current =>
  if rs.state ≠ .receiving ∨ rs.skipped then .error refused
  else if current.size.toInt64 - rs.received < Int64.ofNat payload.length then
   .error (usage "layer data exceeds declared size")
  else if overQuota cfg (rs.totalBytes + UInt64.ofNat payload.length) then
   .error (usage "session quota exceeded while receiving layer")
  else .ok ()

def checkLayerEnd (layerEnd : Option LayerEnd) : Except ProtocolError LayerStart :=
 match rs.current with
 | none => .error (unexpected rs "LayerEnd")
 | some current =>
  if rs.state ≠ .receiving then .error (unexpected rs "LayerEnd")
  else
   match layerEnd with
   | none => .error (usage "LayerEnd does not match LayerStart")
   | some m =>
    if m.index ≠ current.index ∨ m.digest ≠ current.sha256 then
     .error (usage "LayerEnd does not match LayerStart")
    else if rs.skipped then .ok current
    else if rs.received ≠ current.size.toInt64 then
     .error ⟨.usage, .layerSize rs.received current.size, []⟩
    else if digestText rs.hashed ≠ current.sha256 then
     .error ⟨.integrity, .text (lit "layer digest mismatch"), []⟩
    else .ok current

def checkStreamStart (start : Option StreamStart) : Except ProtocolError StreamStart :=
 if rs.state ≠ .greeted then .error (unexpected rs "StreamStart")
 else if rs.version < 2 then
  .error ⟨.usage, .text (lit "StreamStart requires protocol version 2"), lit "upgrade the client"⟩
 else if a.sink.streaming = false then
  .error (usage "this server cannot publish streamed backups")
 else
  match start with
  | none => .error (usage "StreamStart requires a reference")
  | some m =>
   if blank m.reference then .error (usage "StreamStart requires a reference")
   else if repoAllowed m.reference cfg.allowedRepos = false then
    .error ⟨.auth, .notAllowed m.reference, lit "check --allow-repo"⟩
   else if overQuota cfg m.estimatedBytes then
    .error ⟨.usage, .estimate m.estimatedBytes cfg.maxBytes, []⟩
   else .ok m

def checkStreamEnd (streamEnd : Option StreamEnd) : Except ProtocolError Unit :=
 if rs.state ≠ .streaming ∨ rs.ingest = false then .error (unexpected rs "StreamEnd")
 else
  match streamEnd with
  | none => .ok ()
  | some m =>
   if 0 < m.rawBytes ∧ m.rawBytes ≠ rs.totalBytes then
    .error ⟨.integrity, .streamSize rs.totalBytes m.rawBytes, []⟩
   else .ok ()

def scopeOf (reference : Str) : Except Str (Option TokenRequest) :=
 match a.sink.tokenScope with
 | none => .ok none
 | some scope =>
  match scope reference with
  | .error e => .error e
  | .ok request => .ok (some request)

def throttle : Step W :=
 if cfg.rateLimit = 0 then (rs, none) else (rs, a.waiting.map fun e => .failed (.waiting e))

def hello (m : Option Hello) : Step W :=
 match checkHello cfg rs m with
 | .error e => fail a a.first rs e
 | .ok m =>
  let rs := rs.note (.call (.knownBlobs m.sessionId))
  match a.sink.knownBlobs m.sessionId with
  | .error e => fail a a.first rs ⟨.network, .text (lit "cannot inspect resumable blobs"), e⟩
  | .ok known =>
   send { rs with sessionId := m.sessionId, version := m.protocolVersion, state := .greeted }
    (.helloAck ⟨cfg.version, m.protocolVersion, 2 ≤ m.protocolVersion && a.sink.streaming,
     cfg.maxBytes, cfg.allowedRepos, true, known⟩) a.first

def backupStart (m : Option BackupStart) : Step W :=
 match checkBackupStart cfg rs m with
 | .error e => fail a a.first rs e
 | .ok m =>
  let rs := { rs with start := some m, reference := m.reference, layers := [], state := .ready }
  match scopeOf a m.reference with
  | .error e => fail a a.first rs ⟨.usage, .text (lit "invalid registry reference"), e⟩
  | .ok request => send rs (.backupAck request) a.first

def storeReceiver (m : LayerStart) (value : Option W) (error : Option Str) : RunState W :=
 { rs.note (.call (.openBlob rs.opened rs.reference m.sha256 m.size.toInt64 error)) with
   receiver := value.map (Held.mk rs.opened), opened := rs.opened + 1 }

def openLayer (m : LayerStart) : Step W :=
 match a.sink.openBlob rs.reference m.sha256 m.size.toInt64 with
 | (value, some e) =>
  fail a a.first (storeReceiver rs m value (some e))
   ⟨.network, .text (lit "registry upload start failed"), e⟩
 | (value, none) => send (storeReceiver rs m value none) (.layerAck m.index false) a.first

def beginLayer (m : LayerStart) (present : Bool) : RunState W :=
 { rs with current := some m, received := 0, skipped := present, hashed := [], state := .receiving }

def layerStart (m : Option LayerStart) : Step W :=
 match checkLayerStart cfg rs m with
 | .error e => fail a a.first rs e
 | .ok m =>
  let found := a.sink.blobExists rs.reference m.sha256
  let rs := rs.note (.call (.blobExists rs.reference m.sha256 found))
  match found with
  | .error e => fail a a.first rs ⟨.network, .text (lit "registry blob check failed"), e⟩
  | .ok true =>
   send { beginLayer rs m true with skipCount := rs.skipCount + 1 } (.layerAck m.index true)
    a.first
  | .ok false => openLayer a (beginLayer rs m false) m

def accept (payload : Bytes) : RunState W :=
 { rs with
   received := rs.received + Int64.ofNat payload.length
   totalBytes := rs.totalBytes + UInt64.ofNat payload.length }

/-- `data`, for the bytes of a layer. -/
def layerData (payload : Bytes) : Step W :=
 match checkData cfg rs payload with
 | .error e => fail a a.first rs e
 | .ok () =>
  if payload = [] then throttle cfg a (accept rs payload)
  else
   match rs.receiver with
   | none => (rs, some .panicked)
   | some held =>
    match a.sink.writer.write held.value payload with
    | none => (rs.note (.call (.write held.call payload none)), some .panicked)
    | some (value, n, error) =>
     let rs := { rs.note (.call (.write held.call payload (some (n, error)))) with
      receiver := some ⟨held.call, value⟩ }
     match error with
     | some e => fail a a.first rs ⟨.network, .text (lit "registry upload failed"), e⟩
     | none =>
      if n ≠ payload.length then
       fail a a.first rs
        ⟨.network, .text (lit "registry upload returned a short write"), []⟩
      else throttle cfg a (accept { rs with hashed := rs.hashed ++ payload } payload)

def pipelineErrorKind (e : PipelineError) : ErrorKind :=
 if e.aborted then .network
 else if contains e.text (lit "registry") then .network
 else if contains e.text (lit "quota") then .usage
 else .generic

def pipelineError (e : PipelineError) : ProtocolError :=
 ⟨pipelineErrorKind e, .text (lit "server pipeline failed"), e.text⟩

def streamData (payload : Bytes) : Step W :=
 if rs.ingest = false then
  fail a a.first rs ⟨.usage, .text (lit "unexpected Data frame"), lit "send StreamStart first"⟩
 else if overQuota cfg (rs.totalBytes + UInt64.ofNat payload.length) then
  fail a a.first rs (usage "session quota exceeded while receiving the stream")
 else
  let total := rs.totalBytes + UInt64.ofNat payload.length
  if payload = [] then throttle cfg a { rs with totalBytes := total }
  else
   let answer := a.feedIngest payload
   let rs := rs.note (.feedIngest payload (answer.map PipelineError.text))
   match answer with
   | some e => fail a a.first rs (pipelineError e)
   | none => throttle cfg a { rs with totalBytes := total }

def data (payload : Bytes) : Step W :=
 if rs.state = .streaming then streamData cfg a rs payload else layerData cfg a rs payload

def publishLast : Step W :=
 match rs.start with
 | none => (rs, some .panicked)
 | some start =>
  if UInt32.ofNat rs.layers.length ≠ start.layerCount then (rs, none)
  else
   let backup : Backup := ⟨rs.sessionId, start, rs.layers⟩
   let published := a.sink.commitBackup backup
   let rs := rs.note (.call (.commitBackup backup published))
   match published with
   | .error e => fail a a.second rs ⟨.network, .text (lit "publishing OCI index failed"), e⟩
   | .ok digest =>
    send { rs with state := .closed }
     (.backupEnd ⟨digest, rs.totalBytes, rs.skipCount, 0, 0, 0, 0, 0⟩) a.second

def endLayer (current : LayerStart) : RunState W :=
 let layer : Layer :=
  ⟨current.index, current.size.toInt64, current.sha256, current.diffId, current.mediaType⟩
 { rs with
   layers := rs.layers ++ [layer], current := none, receiver := none, hashed := []
   state := .ready }

/-- The end of `layerEnd`. -/
def sealLayer (current : LayerStart) : Step W :=
 let rs := endLayer rs current
 let message : ServerMessage :=
  .progress (UInt32.ofNat (rs.layers.length - 1)) rs.totalBytes rs.skipped
 match a.first with
 | some e => (rs.note (.sent message a.first), some (.failed (.sending e)))
 | none => publishLast a (rs.note (.sent message a.first))

def layerEnd (m : Option LayerEnd) : Step W :=
 match checkLayerEnd rs m with
 | .error e => fail a a.first rs e
 | .ok current =>
  if rs.skipped then sealLayer a rs current
  else
   match rs.receiver with
   | none => (rs, some .panicked)
   | some held =>
    match a.sink.writer.commit held.value with
    | none => (rs.note (.call (.commit held.call none)), some .panicked)
    | some (value, error) =>
     let rs := { rs.note (.call (.commit held.call (some error))) with
      receiver := some ⟨held.call, value⟩ }
     match error with
     | some e =>
      fail a a.first rs ⟨.network, .text (lit "registry upload commit failed"), e⟩
     | none => sealLayer a rs current

def streamStart (m : Option StreamStart) : Step W :=
 match checkStreamStart cfg a rs m with
 | .error e => fail a a.first rs e
 | .ok m =>
  let rs := { rs with reference := m.reference }
  match scopeOf a m.reference with
  | .error e => fail a a.first rs ⟨.usage, .text (lit "invalid registry reference"), e⟩
  | .ok request =>
   let error := a.startIngest m
   let rs := rs.note (.startIngest m error)
   match error with
   | some e => fail a a.first rs ⟨.usage, .text (lit "cannot start the server pipeline"), e⟩
   | none => send { rs with ingest := true, state := .streaming } (.streamAck request) a.first

def streamEnd (m : Option StreamEnd) : Step W :=
 match checkStreamEnd rs m with
 | .error e => fail a a.first rs e
 | .ok () =>
  match a.finishIngest with
  | .error e =>
   fail a a.first { rs.note (.finishIngest (some e.text)) with ingest := false }
    (pipelineError e)
  | .ok result =>
   let rs := { rs.note (.finishIngest none) with ingest := false, state := .closed }
   let rs := rs.note (.sent .streamProgress a.first)
   match a.first with
   | some e => (rs, some (.failed (.sending e)))
   | none => send rs (.backupEnd result) a.second

def control : ClientMessage → Step W
 | .hello m => hello cfg a rs m
 | .backupStart m => backupStart cfg a rs m
 | .layerStart m => layerStart cfg a rs m
 | .layerEnd m => layerEnd a rs m
 | .streamStart m => streamStart cfg a rs m
 | .streamEnd m => streamEnd a rs m
 | .token m =>
  if rs.state = .ready ∨ rs.state = .receiving ∨ rs.state = .streaming then
   (rs.note (.call (.provideToken m)), none)
  else fail a a.first rs (unexpected rs "Token")
 | .cancel reason => dismiss a rs (.cancelled reason)
 | .error message => dismiss a rs (.client message)
 | .empty => fail a a.first rs (usage "empty client control message")

end Handlers

def maxKeepaliveOnly : Int := 15 * 60 * 1000000000

def uploadLayers (s : Sink W) : RunState W → List LayerUpload → RunState W × Bool
 | rs, [] => (rs, false)
 | rs, layer :: layers =>
  if rs.ingest = false ∨ rs.uploadFailed then (rs, false)
  else
   match upload s rs.reference rs.opened layer with
   | (calls, opened, .panicked) =>
    ({ rs.noteCalls calls with opened := rs.opened + opened }, true)
   | (calls, opened, .failed _) =>
    ({ rs.noteCalls calls with opened := rs.opened + opened, uploadFailed := true }, false)
   | (calls, opened, .done) =>
    uploadLayers s { rs.noteCalls calls with opened := rs.opened + opened } layers

def handle (cfg : SessionConfig) (t : Turn W) (rs : RunState W) (payload : Bytes) :
  Option FrameType → Step W
 | some .keepalive =>
  if payload ≠ [] then fail t.answers t.answers.first rs (usage "keepalive frame must be empty")
  else if maxKeepaliveOnly < t.now - rs.lastProgress then
   fail t.answers t.answers.first rs
    ⟨.network, .text (lit
     "no protocol progress for 15m0s: keepalives alone do not hold a session"), []⟩
  else (rs, none)
 | some .data => data cfg t.answers { rs with lastProgress := t.now } payload
 | some .control =>
  let rs := { rs with lastProgress := t.now }
  match cfg.decode payload with
  | .error e => fail t.answers t.answers.first rs ⟨.usage, .text e, []⟩
  | .ok m => control cfg t.answers rs m
 | none => fail t.answers t.answers.first rs (usage "unknown frame type")

def turn (cfg : SessionConfig) (t : Turn W) (rs : RunState W) : Step W :=
 match t.trouble with
 | some f => (stop t.answers rs f).map id some
 | none =>
  match t.frame with
  | .error e => (stop t.answers rs (.reading e)).map id some
  | .ok (type, payload) => handle cfg t rs payload type

def leave (a : Answers W) (rs : RunState W) (ended : Ending) : RunState W × Ending :=
 match abort a rs with
 | (rs, true) => (rs, .panicked)
 | (rs, false) => (rs, ended)

/-- The loop of `Run` and its deferred `abort`. The turns are what the world does until the session
is over; `last` are the answers it ends with when they run out. -/
def runFrom (cfg : SessionConfig) (last : Answers W) (eof : Str) : RunState W → List (Turn W) →
  RunState W × Ending
 | rs, [] =>
  if rs.state = .closed then leave last rs .returned
  else
   let (rs, ended) := stop last rs (.reading eof)
   leave last rs ended
 | rs, t :: ts =>
  if rs.state = .closed then leave t.answers rs .returned
  else
   match uploadLayers t.answers.sink rs t.uploads with
   | (rs, true) => (rs, .crashed)
   | (rs, false) =>
    match turn cfg t rs with
    | (rs, some ended) => leave t.answers rs ended
    | (rs, none) => runFrom cfg last eof rs ts

def run (cfg : SessionConfig) (now : Int) (turns : List (Turn W)) (last : Answers W) (eof : Str) :
  RunState W × Ending :=
 runFrom cfg last eof (RunState.fresh now) turns

variable {cfg : SessionConfig} {rs : RunState W} {a : Answers W}

theorem checkHello_ok {m : Option Hello} {x : Hello} (checked : checkHello cfg rs m = .ok x) :
  rs.state = .new ∧ m = some x ∧ (cfg.authToken ≠ [] → x.authToken = cfg.authToken) := by
 obtain ⟨state, checked⟩ := guard_ok.mp checked
 cases m with
 | none => cases checked
 | some m =>
  obtain ⟨-, checked⟩ := guard_ok.mp checked
  obtain ⟨-, checked⟩ := guard_ok.mp checked
  obtain ⟨token, checked⟩ := guard_ok.mp checked
  cases checked
  refine ⟨not_not.mp state, rfl, fun configured => ?_⟩
  by_contra other
  exact token ⟨configured, other⟩

theorem checkBackupStart_ok {m : Option BackupStart} {x : BackupStart}
  (checked : checkBackupStart cfg rs m = .ok x) :
  rs.state = .greeted ∧ m = some x ∧ repoAllowed x.reference cfg.allowedRepos = true ∧
   0 < x.layerCount.toNat ∧ x.layerCount.toNat ≤ maxDataLayers := by
 obtain ⟨state, checked⟩ := guard_ok.mp checked
 cases m with
 | none => cases checked
 | some m =>
  obtain ⟨named, checked⟩ := guard_ok.mp checked
  obtain ⟨allowed, checked⟩ := guard_ok.mp checked
  obtain ⟨-, checked⟩ := guard_ok.mp checked
  obtain ⟨few, checked⟩ := guard_ok.mp checked
  cases checked
  refine ⟨not_not.mp state, rfl, Bool.not_eq_false _ ▸ allowed, ?_, Nat.not_lt.mp few⟩
  apply Nat.pos_of_ne_zero
  intro none_announced
  exact named (.inr (UInt32.toNat_inj.mp none_announced))

theorem checkLayerStart_ok {m : Option LayerStart} {x : LayerStart}
  (checked : checkLayerStart cfg rs m = .ok x) :
  rs.state = .ready ∧ m = some x ∧ x.index = UInt32.ofNat rs.layers.length := by
 obtain ⟨state, checked⟩ := guard_ok.mp checked
 cases m with
 | none => cases checked
 | some m =>
  obtain ⟨valid, checked⟩ := guard_ok.mp checked
  obtain ⟨-, checked⟩ := guard_ok.mp checked
  cases checked
  refine ⟨not_not.mp state, rfl, ?_⟩
  by_contra other
  exact valid (.inl other)

theorem checkData_ok {payload : Bytes} {x : Unit} (checked : checkData cfg rs payload = .ok x) :
  rs.state = .receiving ∧ rs.skipped = false ∧
   (∀ m, rs.current = some m → Int64.ofNat payload.length ≤ m.size.toInt64 - rs.received) ∧
   overQuota cfg (rs.totalBytes + UInt64.ofNat payload.length) = false := by
 unfold checkData at checked
 cases current : rs.current with
 | none =>
  rw [current] at checked
  cases checked
 | some m =>
  rw [current] at checked
  obtain ⟨active, checked⟩ := guard_ok.mp checked
  obtain ⟨fits, checked⟩ := guard_ok.mp checked
  obtain ⟨quota, -⟩ := guard_ok.mp checked
  rw [not_or] at active
  refine ⟨not_not.mp active.1, Bool.not_eq_true _ ▸ active.2, ?_, Bool.not_eq_true _ ▸ quota⟩
  rintro _ ⟨⟩
  exact Int64.not_lt.mp fits

theorem checkLayerEnd_ok {m : Option LayerEnd} {current : LayerStart}
  (checked : checkLayerEnd rs m = .ok current) :
  rs.state = .receiving ∧ rs.current = some current ∧ m = some ⟨current.index, current.sha256⟩ ∧
   (rs.skipped = false → rs.received = current.size.toInt64 ∧ digestText rs.hashed =
    current.sha256) := by
 unfold checkLayerEnd at checked
 cases here : rs.current with
 | none =>
  rw [here] at checked
  cases checked
 | some layer =>
  rw [here] at checked
  obtain ⟨state, checked⟩ := guard_ok.mp checked
  cases m with
  | none => cases checked
  | some m =>
   obtain ⟨matching, checked⟩ := guard_ok.mp checked
   rw [not_or, not_not, not_not] at matching
   have is : some m = some ⟨layer.index, layer.sha256⟩ := by
    rw [← matching.1, ← matching.2]
   cases skipped : rs.skipped with
   | true =>
    rw [skipped] at checked
    cases checked
    exact ⟨not_not.mp state, rfl, is, fun impossible => by cases impossible⟩
   | false =>
    rw [skipped] at checked
    obtain ⟨size, checked⟩ := guard_ok.mp checked
    obtain ⟨digest, checked⟩ := guard_ok.mp checked
    cases checked
    exact ⟨not_not.mp state, rfl, is, fun _ => ⟨not_not.mp size, not_not.mp digest⟩⟩

theorem checkStreamStart_ok {m : Option StreamStart} {x : StreamStart}
  (checked : checkStreamStart cfg a rs m = .ok x) :
  rs.state = .greeted ∧ m = some x ∧ repoAllowed x.reference cfg.allowedRepos = true := by
 obtain ⟨state, checked⟩ := guard_ok.mp checked
 obtain ⟨-, checked⟩ := guard_ok.mp checked
 obtain ⟨-, checked⟩ := guard_ok.mp checked
 cases m with
 | none => cases checked
 | some m =>
  obtain ⟨-, checked⟩ := guard_ok.mp checked
  obtain ⟨allowed, checked⟩ := guard_ok.mp checked
  obtain ⟨-, checked⟩ := guard_ok.mp checked
  cases checked
  exact ⟨not_not.mp state, rfl, Bool.not_eq_false _ ▸ allowed⟩

theorem checkStreamEnd_ok {m : Option StreamEnd} {x : Unit}
  (checked : checkStreamEnd rs m = .ok x) :
  rs.state = .streaming ∧
   (m.elim 0 StreamEnd.rawBytes = 0 ∨ m.elim 0 StreamEnd.rawBytes = rs.totalBytes) := by
 obtain ⟨state, checked⟩ := guard_ok.mp checked
 rw [not_or, not_not] at state
 cases m with
 | none => exact ⟨state.1, .inl rfl⟩
 | some m =>
  obtain ⟨fits, -⟩ := guard_ok.mp checked
  refine ⟨state.1, ?_⟩
  by_cases none_declared : m.rawBytes = 0
  · exact .inl none_declared
  · refine .inr (not_not.mp fun other => fits ⟨?_, other⟩)
    exact UInt64.pos_iff_ne_zero.mpr none_declared

end BackImage.Server.Session
