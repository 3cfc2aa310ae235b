/- source: pkg/registry/push.go
  digest: The goroutines of a push as one system whose actions interleave, with every answer of the
    registry. -/

import BackImage.Go.Sha256
import BackImage.Lib.Transitions
import BackImage.Registry.UploadRetries
import Mathlib.Data.List.Sort

namespace BackImage.Registry.Push

open Go.Sha256 Go.Text UploadRetries

/-- `blobTask`. -/
structure Task where
 digest : Str
 size : Int64
 deriving DecidableEq

structure HeadReply where
 status : Nat
 contentLength : Int64
 contentDigest : Str
 deriving DecidableEq

inductive HeadError
 | request (cause : Str)
 | wrongDigest (status : Nat) (got : Str)
 | unauthorized
 | status (code : Nat)
 deriving DecidableEq

def blobExists (digest : Str) : Except Str HeadReply → Except HeadError (Bool × Int64)
 | .error cause => .error (.request cause)
 | .ok r =>
  if r.status = 200 ∨ r.status = 202 then
   if r.contentDigest ≠ [] ∧ r.contentDigest ≠ digest then
    .error (.wrongDigest r.status r.contentDigest)
   else .ok (true, if 0 ≤ r.contentLength then r.contentLength else -1)
  else if r.status = 404 then .ok (false, -1)
  else if r.status = 401 then .error .unauthorized
  else .error (.status r.status)

def sizeMismatch (size : Int64) (t : Task) : Bool := 0 < size && size ≠ t.size

inductive Ident
 | digest (d : Str)
 | reference
 deriving DecidableEq

inductive PushError
 | checkingBlob (digest : Str) (cause : HeadError)
 | blob (digest : Str) (cause : Ending)
 | savingCheckpoint (cause : Str)
 | context
 | request (cause : Str)
 | publishManifest (ident : Ident) (status : Nat)
 | verifyBlob (digest : Str) (cause : HeadError)
 | blobNotKept (digest : Str)
 | blobKeptShort (digest : Str) (size want : Int64)
 | manifestRead (digest cause : Str)
 | manifestStatus (digest : Str) (status : Nat)
 | manifestDigest (digest got : Str)
 | manifestDiffers (digest : Str)
 | tagStatus (status : Nat)
 | tagResolves (got : Str)
 deriving DecidableEq

/-- What a push is given: the tasks, `PushOptions`, the digests of the loaded checkpoint, and the
manifests to publish by their digests. -/
structure Plan where
 tasks : List Task
 jobs : Nat
 positive : 0 < jobs
 maxRetries : Nat
 loaded : List Str
 staged : List (Str × Bytes)
 taggedDigest : Str
 checkpointed : Bool
 verify : Bool

/-- What happens between a push and the registry or the checkpoint: a blob exists, is uploaded,
fails or is verified, a checkpoint is saved, the context ends, a manifest is PUT. -/
inductive Event
 | found (t : Task) (size : Int64)
 | uploaded (t : Task)
 | saved (digests : List Str)
 | failed (err : PushError)
 | cancelled
 | put (ident : Ident) (accepted : Bool)
 | verified (t : Task) (size : Int64)
 deriving DecidableEq

inductive Feeder
 | next (rest : List Task)
 | offering (t : Task) (rest : List Task)
 | closed
 deriving DecidableEq

/-- Where a worker is: at the receive, in `executeBlob` before a lookup, a request, or one of the
two steps of `markDone`, or after an error. -/
inductive Worker
 | idle
 | starting (t : Task)
 | checking (t : Task)
 | uploading (t : Task)
 | confirming (t : Task)
 | marking (t : Task)
 | saving (t : Task) (digests : List Str)
 | failing (err : PushError)
 | reporting (err : PushError)
 | exited
 deriving DecidableEq

/-- Where `run` itself is. -/
inductive Main
 | waiting
 | collecting
 | checkingContext
 | publishing (rest : List Ident)
 | verifyingBlobs (rest : List Task)
 | verifyingManifests (rest : List (Str × Bytes))
 | verifyingTag
 | cleaning
 | returned (err : Option PushError)
 deriving DecidableEq

structure State where
 feeder : Feeder
 taskCh : List Task
 workers : List Worker
 ckptMu : Option Nat
 done : List Str
 cancelled : Bool
 errCh : List PushError
 main : Main
 log : List Event
 deriving DecidableEq

def State.note (s : State) (event : Event) : State := { s with log := s.log ++ [event] }

/-- `cancel()`. -/
def State.cancel (s : State) : State :=
 if s.cancelled then s else { s.note .cancelled with cancelled := true }

def start (plan : Plan) : State where
 feeder := .next plan.tasks
 taskCh := []
 workers := List.replicate plan.jobs .idle
 ckptMu := none
 done := plan.loaded
 cancelled := false
 errCh := []
 main := .waiting
 log := []

inductive Answer
 | nothing
 | head (reply : Except Str HeadReply)
 | upload (outcomes : Nat → Outcome) (s : Surroundings)
 | save (err : Option Str)
 | put (reply : Except Str Nat)
 | manifest (reply : Except Str (Nat × Except Str Bytes))
 | tag (reply : Except Str (Nat × Str))

inductive Action
 | feed
 | feedStop
 | work (w : Nat) (answer : Answer)
 | main (answer : Answer)
 | cancel

def feed (plan : Plan) (s : State) : Option State :=
 match s.feeder with
 | .next [] => some { s with feeder := .closed }
 | .next (t :: rest) =>
  if t.digest ∈ s.done then some { s with feeder := .next rest }
  else some { s with feeder := .offering t rest }
 | .offering t rest =>
  if s.taskCh.length < plan.jobs then
   some { s with taskCh := s.taskCh ++ [t], feeder := .next rest }
  else none
 | .closed => none

/-- The other case of its `select`. -/
def feedStop (s : State) : Option State :=
 match s.feeder with
 | .offering _ _ => if s.cancelled then some { s with feeder := .closed } else none
 | _ => none

/-- `executeBlob` returns an error. -/
def fails (s : State) (err : PushError) : Option (Worker × State) :=
 some (.failing err, s.note (.failed err))

def addDone (t : Task) (done : List Str) : List Str :=
 if t.digest ∈ done then done else t.digest :: done

def work (plan : Plan) (w : Nat) (answer : Answer) (s : State) : Worker → Option (Worker × State)
 | .idle =>
  match s.taskCh with
  | t :: rest => some (.starting t, { s with taskCh := rest })
  | [] => if s.feeder = .closed then some (.exited, s) else none
 | .starting t => if t.digest ∈ s.done then some (.idle, s) else some (.checking t, s)
 | .checking t =>
  match answer with
  | .head reply =>
   match blobExists t.digest reply with
   | .error e => fails s (.checkingBlob t.digest e)
   | .ok (true, size) =>
    if sizeMismatch size t then some (.uploading t, s.note (.found t size))
    else some (.confirming t, s.note (.found t size))
   | .ok (false, _) => some (.uploading t, s)
  | _ => none
 | .uploading t =>
  match answer with
  | .upload outcomes around =>
   match (uploadWithRetries plan.maxRetries outcomes around).2 with
   | .returned => some (.confirming t, s.note (.uploaded t))
   -- a panic, which would end the process, is a failure here
   | e => fails s (.blob t.digest e)
  | _ => none
 | .confirming t => if s.ckptMu = none then some (.marking t, { s with ckptMu := some w }) else none
 | .marking t =>
  let done := addDone t s.done
  if plan.checkpointed then some (.saving t done, { s with done := done })
  else some (.idle, { s with done := done, ckptMu := none })
 | .saving _ digests =>
  match answer with
  | .save err =>
   let s := { s.note (.saved digests) with ckptMu := none }
   match err with
   | some e => fails s (.savingCheckpoint e)
   | none => some (.idle, s)
  | _ => none
 | .failing err => some (.reporting err, s.cancel)
 | .reporting err =>
  some (.exited, if s.errCh.length < plan.jobs then { s with errCh := s.errCh ++ [err] } else s)
 | .exited => none

def sortedStaged (plan : Plan) : List (Str × Bytes) :=
 plan.staged.insertionSort fun a b => a.1 ≤ b.1

def puts (plan : Plan) : List Ident :=
 ((sortedStaged plan).filter fun m => m.1 ≠ plan.taggedDigest).map (fun m => .digest m.1) ++
  [.digest plan.taggedDigest, .reference]

def returns (s : State) (err : PushError) : Option State :=
 some { s with main := .returned (some err) }

def putManifest (ident : Ident) (rest : List Ident) (reply : Except Str Nat) (s : State) :
  Option State :=
 if s.cancelled then returns s .context
 else
  match reply with
  | .error cause => returns (s.note (.put ident false)) (.request cause)
  | .ok status =>
   if status = 201 ∨ status = 200 then
    some { s.note (.put ident true) with main := .publishing rest }
   else returns (s.note (.put ident false)) (.publishManifest ident status)

def verifyBlob (t : Task) (rest : List Task) (reply : Except Str HeadReply) (s : State) :
  Option State :=
 if s.cancelled then returns s .context
 else
  match blobExists t.digest reply with
  | .error e => returns s (.verifyBlob t.digest e)
  | .ok (false, _) => returns s (.blobNotKept t.digest)
  | .ok (true, size) =>
   if sizeMismatch size t then returns s (.blobKeptShort t.digest size t.size)
   else some { s.note (.verified t size) with main := .verifyingBlobs rest }

def verifyManifest (m : Str × Bytes) (reply : Except Str (Nat × Except Str Bytes)) :
  Option PushError :=
 match reply with
 | .error cause => some (.request cause)
 | .ok (_, .error cause) => some (.manifestRead m.1 cause)
 | .ok (status, .ok body) =>
  if status ≠ 200 then some (.manifestStatus m.1 status)
  else if digestText body ≠ m.1 then some (.manifestDigest m.1 (digestText body))
  else if body ≠ m.2 then some (.manifestDiffers m.1)
  else none

def verifyTag (plan : Plan) (reply : Except Str (Nat × Str)) : Option PushError :=
 match reply with
 | .error cause => some (.request cause)
 | .ok (status, got) =>
  if status ≠ 200 then some (.tagStatus status)
  else if got ≠ [] ∧ got ≠ plan.taggedDigest then some (.tagResolves got)
  else none

def mainStep (plan : Plan) (answer : Answer) (s : State) : Option State :=
 match s.main with
 | .waiting => if ∀ w ∈ s.workers, w = .exited then some { s with main := .collecting } else none
 | .collecting =>
  match s.errCh with
  | err :: _ => returns s err
  | [] => some { s with main := .checkingContext }
 | .checkingContext =>
  if s.cancelled then returns s .context else some { s with main := .publishing (puts plan) }
 | .publishing [] =>
  some { s with main := if plan.verify then .verifyingBlobs plan.tasks else .cleaning }
 | .publishing (ident :: rest) =>
  match answer with
  | .put reply => putManifest ident rest reply s
  | _ => none
 | .verifyingBlobs [] => some { s with main := .verifyingManifests (sortedStaged plan) }
 | .verifyingBlobs (t :: rest) =>
  match answer with
  | .head reply => verifyBlob t rest reply s
  | _ => none
 | .verifyingManifests [] => some { s with main := .verifyingTag }
 | .verifyingManifests (m :: rest) =>
  match answer with
  | .manifest reply =>
   match verifyManifest m reply with
   | some err => returns s err
   | none => some { s with main := .verifyingManifests rest }
  | _ => none
 | .verifyingTag =>
  match answer with
  | .tag reply =>
   match verifyTag plan reply with
   | some err => returns s err
   | none => some { s with main := .cleaning }
  | _ => none
 | .cleaning => some { s with main := .returned none }
 | .returned _ => none

def step (plan : Plan) (action : Action) (s : State) : Option State :=
 match action with
 | .feed => feed plan s
 | .feedStop => feedStop s
 | .work w answer =>
  match s.workers[w]? with
  | none => none
  | some worker =>
   (work plan w answer s worker).map fun r => { r.2 with workers := s.workers.set w r.1 }
 | .main answer => mainStep plan answer s
 | .cancel => if s.cancelled then none else some s.cancel

end BackImage.Registry.Push
