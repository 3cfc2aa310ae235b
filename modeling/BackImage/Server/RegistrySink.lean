/- source: pkg/server/session.go, pkg/server/registry_sink.go, pkg/registry/blob.go,
     pkg/server/stream.go
  digest: What a session asks of its registry and how the sink answers, and the calls of the
    pipeline behind a stream. -/

import BackImage.Protocol.Frames
import BackImage.Registry.BlobSession

namespace BackImage.Server.RegistrySink

open Go.Text Protocol.Frames Registry.BlobSession

universe u

structure Layer where
 index : UInt32
 size : Int64
 digest : Str
 diffId : Str
 mediaType : Str
 deriving DecidableEq

structure Backup where
 sessionId : Str
 start : BackupStart
 layers : List Layer
 deriving DecidableEq

structure BlobWriter (W : Type u) where
 write : W → Bytes → Option (W × Nat × Option Str)
 commit : W → Option (W × Option Str)
 abort : W → Option (W × Option Str)

structure Sink (W : Type u) where
 knownBlobs : Str → Except Str (List Str)
 blobExists : Str → Str → Except Str Bool
 openBlob : Str → Str → Int64 → Option W × Option Str
 commitBackup : Backup → Except Str Str
 writer : BlobWriter W
 putBlob : Option (Str → Str → Int64 → Option Str)
 tokenScope : Option (Str → Except Str TokenRequest)
 streaming : Bool

abbrev Pointer := Option BlobUpload

/-- What comes of an upload, which is up to the registry: of its start, and of the calls on the
session. Nothing is assumed of these but that they return. -/
structure UploadAnswers where
 startUpload : Except Str Str
 write : BlobUpload → Bytes → BlobUpload × Nat × Option Str
 commit : BlobUpload → BlobUpload × Option Str
 abort : BlobUpload → BlobUpload × Option Str

def pointerWriter (r : UploadAnswers) : BlobWriter Pointer where
 write u p := u.map fun u => let (u, n, e) := r.write u p; (some u, n, e)
 commit u := u.map fun u => let (u, e) := r.commit u; (some u, e)
 abort u := u.map fun u => let (u, e) := r.abort u; (some u, e)

structure RegistryAnswers where
 parseReference : Str → Except Str Str
 httpBase : Str → Option Str
 head : Str → Except Str Bool
 upload : UploadAnswers
 putStream : Str → Int64 → Option Str
 commitBackup : Backup → Except Str Str

def maxBuffer : Int := 64 <<< 20

section

variable (r : RegistryAnswers) (chunkSize : Int)

def clientError (reference : Str) : Option Str :=
 match r.parseReference reference with
 | .error e => some e
 | .ok _ =>
  if maxBuffer < chunkSize then
   some (lit "registry upload chunk exceeds 64 MiB memory limit")
  else r.httpBase reference

def openBlob (reference digest : Str) : Option Pointer × Option Str :=
 match clientError r chunkSize reference with
 | some e => (none, some e)
 | none =>
  match openUpload r.upload.startUpload digest with
  | .error e => (some none, some e)
  | .ok u => (some (some u), none)

def blobExists (reference digest : Str) : Except Str Bool :=
 match clientError r chunkSize reference with
 | some e => .error e
 | none => r.head digest

def putBlob (reference digest : Str) (size : Int64) : Option Str :=
 match clientError r chunkSize reference with
 | some e => some e
 | none =>
  if validSHA256Digest digest = false then some (lit "invalid blob digest")
  else r.putStream digest size

def tokenScope (reference : Str) : Except Str TokenRequest :=
 match r.parseReference reference with
 | .error e => .error e
 | .ok repository => .ok ⟨repository, [lit "pull", lit "push"]⟩

def registrySink (chunkSize : Int) (r : RegistryAnswers) : Sink Pointer where
 knownBlobs _ := .ok []
 blobExists := blobExists r chunkSize
 openBlob reference digest _ := openBlob r chunkSize reference digest
 commitBackup := r.commitBackup
 writer := pointerWriter r.upload
 putBlob := some (putBlob r chunkSize)
 tokenScope := some (tokenScope r)
 streaming := true

/-- The upload starts, or the client that would start it cannot be built. -/
def Starts (reference digest : Str) : Prop :=
 clientError r chunkSize reference ≠ none ∨
  (validSHA256Digest digest = true ∧ ∃ loc, r.upload.startUpload = .ok loc ∧ loc ≠ [])

end

theorem openBlob_cases (r : RegistryAnswers) (chunkSize : Int) (reference digest : Str) :
  (Starts r chunkSize reference digest ∧
   ((∃ u, openBlob r chunkSize reference digest = (some (some u), none)) ∨
     ∃ e, openBlob r chunkSize reference digest = (none, some e))) ∨
   (¬ Starts r chunkSize reference digest ∧
    ∃ e, openBlob r chunkSize reference digest = (some none, some e)) := by
 unfold openBlob Starts
 cases built : clientError r chunkSize reference with
 | some e => exact .inl ⟨.inl (by simp), .inr ⟨e, rfl⟩⟩
 | none =>
  dsimp only
  cases opened : openUpload r.upload.startUpload digest with
  | ok u => exact .inl ⟨.inr (openUpload_ok_iff.mp ⟨u, opened⟩), .inl ⟨u, rfl⟩⟩
  | error e =>
   refine .inr ⟨?_, e, rfl⟩
   rintro (absent | starts)
   · exact absent rfl
   · obtain ⟨u, fine⟩ := openUpload_ok_iff.mpr starts
     rw [opened] at fine
     cases fine

variable {W : Type u}

/-- A call on the sink, with its answer, or on a writer, named by the number of the `OpenBlob` call
that returned it. A call on a writer that panics has no answer. -/
inductive Call
 | knownBlobs (session : Str)
 | blobExists (reference digest : Str) (answer : Except Str Bool)
 | openBlob (call : Nat) (reference digest : Str) (size : Int64) (error : Option Str)
 | write (call : Nat) (payload : Bytes) (answer : Option (Nat × Option Str))
 | commit (call : Nat) (answer : Option (Option Str))
 | abort (call : Nat) (answer : Option (Option Str))
 | putBlob (reference digest : Str) (size : Int64) (error : Option Str)
 | commitBackup (backup : Backup) (answer : Except Str Str)
 | provideToken (token : Option Token)
 deriving DecidableEq

structure LayerUpload where
 digest : Str
 size : Int64
 content : Except Str (List Bytes × Option Str × Option Str)

inductive Uploaded
 | done
 | failed (cause : Str)
 | panicked
 deriving DecidableEq

def copyPieces (w : BlobWriter W) (call : Nat) : W → Nat → List Bytes →
  List Call × Option (W × Nat × Option Str)
 | v, written, [] => ([], some (v, written, none))
 | v, written, p :: ps =>
  match w.write v p with
  | none => ([.write call p none], none)
  | some (v, n, some e) => ([.write call p (some (n, some e))], some (v, written + n, some e))
  | some (v, n, none) =>
   if n ≠ p.length then
    ([.write call p (some (n, none))], some (v, written + n, some (lit "short write")))
   else
    let (calls, rest) := copyPieces w call v (written + n) ps
    (.write call p (some (n, none)) :: calls, rest)

/-- `abort`, the closure of `upload`. -/
def giveUp (w : BlobWriter W) (call : Nat) (v : W) (cause : Str) : List Call × Uploaded :=
 match w.abort v with
 | none => ([.abort call none], .panicked)
 | some (_, e) => ([.abort call (some e)], .failed cause)

def copyLayer (w : BlobWriter W) (call : Nat) (v : W) (layer : LayerUpload) :
  List Call × Uploaded :=
 match layer.content with
 | .error e => giveUp w call v e
 | .ok (pieces, readError, closeError) =>
  match copyPieces w call v 0 pieces with
  | (calls, none) => (calls, .panicked)
  | (calls, some (v, written, copyError)) =>
   let fault : Option Str :=
    (copyError.or readError).or
     (closeError.or
      (if (written : Int) ≠ layer.size.toInt then some (lit "layer size mismatch")
      else none))
   match fault with
   | some e =>
    let (more, ended) := giveUp w call v e
    (calls ++ more, ended)
   | none =>
    match w.commit v with
    | none => (calls ++ [.commit call none], .panicked)
    | some (_, some e) => (calls ++ [.commit call (some (some e))], .failed e)
    | some (_, none) => (calls ++ [.commit call (some none)], .done)

def upload (s : Sink W) (reference : Str) (call : Nat) (layer : LayerUpload) :
  List Call × Nat × Uploaded :=
 let checked := Call.blobExists reference layer.digest (s.blobExists reference layer.digest)
 match s.blobExists reference layer.digest with
 | .error e => ([checked], 0, .failed e)
 | .ok true => ([checked], 0, .done)
 | .ok false =>
  match s.putBlob with
  | some put =>
   let e := put reference layer.digest layer.size
   ([checked, .putBlob reference layer.digest layer.size e], 0, e.elim .done .failed)
  | none =>
   match s.openBlob reference layer.digest layer.size with
   | (_, some e) =>
    ([checked, .openBlob call reference layer.digest layer.size (some e)], 1, .failed e)
   | (none, none) =>
    ([checked, .openBlob call reference layer.digest layer.size none], 1, .panicked)
   | (some v, none) =>
    let (calls, ended) := copyLayer s.writer call v layer
    (checked :: .openBlob call reference layer.digest layer.size none :: calls, 1, ended)

end BackImage.Server.RegistrySink
