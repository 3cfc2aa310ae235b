/- source: pkg/backup/pipeline.go, pkg/server/stream.go, pkg/index/limits.go
  digest: When the reader accepts the tables that the two builders write. -/

import BackImage.Backup.CutRefinement
import BackImage.Server.StreamRefinement

namespace BackImage.Server.TableAgreement

open Backup.CutRefinement Backup.Pipeline Chunk.Boundary Go.Text Index.CutTables Index.Limits
open Index.Private Lib.Cut Lib.Sequence Server.Stream StreamRefinement
open Go.Sha256 (CollisionFree collisionFree_list)

def layerContents (store : Store) (policy : LayerPolicy) (boundary : LayerBoundary)
  (data : List Bytes) : List Bytes :=
 (cut (rolls policy boundary) (storedChunks store (number 0 data))).map layerContent

/-- The reader accepts the tables of either builder exactly when no two layers hold the same bytes
and, for the local builder, its 32-bit chunk counter has not wrapped. -/
theorem tables_accepted_iff (boundary : LayerBoundary) :
  (∀ (env : Env) (cfg : Config) (feed : Feed) (md : Metadata),
   backupWith env cfg feed boundary = .ok md →
   Storable (maxStoredChunkBytes md.manifest) (storedChunks env.store (number 0 feed.data)) →
   CollisionFree {content | content ∈
    layerContents env.store (Backup.Pipeline.policyOf cfg) boundary feed.data} →
   (validateChunkTable md.manifest md.table = .ok () ↔ feed.data.length < 4294967296 ∧
     (layerContents env.store (Backup.Pipeline.policyOf cfg) boundary feed.data).Nodup)) ∧
  ∀ (env : StreamEnv) (cfg : StreamConfig) (data : List Bytes) (events : List Event)
   (st : StreamState) (md : Metadata), run env cfg (StreamState.start boundary data) events =
   some st →
   md ∈ st.commits → Storable (maxStoredChunkBytes md.manifest)
   (storedChunks env.store (number 0 data)) →
   CollisionFree {content | content ∈
    layerContents env.store (Stream.policyOf cfg) boundary data} →
   (validateChunkTable md.manifest md.table = .ok () ↔
    (layerContents env.store (Stream.policyOf cfg) boundary data).Nodup) := by
 constructor
 · intro env cfg feed md result storable free
   exact backupWith_accepted_iff result storable free
 · intro env cfg data events st md ends committed storable free
   exact commit_accepted_iff ends committed storable free

def frames (answers : List Bytes) : Store where
 compress i _ := .ok (answers.getD i [])
 sealer := none

def localEnv (answers : List Bytes) : Env where
 newSealer := none
 cancelled _ := none
 store := frames answers
 createSpool _ := none
 writeSpool _ := none
 digestSpool _ := none
 closeSpool _ := none
 fileLayer _ := none
 writer := plainWriter
 host := default

def streamEnv (answers : List Bytes) : StreamEnv where
 store := frames answers
 splitErr := none
 scan := .ok default
 writer := plainWriter
 commit _ := .ok []

def zeros (n : Nat) : List Bytes := List.replicate n (List.replicate 1048576 0)

def zeroFeed : Feed := ⟨zeros 2, none, none, default, []⟩

def localConfig : Config := { (default : Config) with chunkBytes := 1048576 }

def streamConfig : StreamConfig := { (default : StreamConfig) with chunkBytes := 1048576 }

def twoLayers : List Event :=
 [.receive, .handoff, .resume, .upload none, .receive, .handoff, .resume, .upload none, .receive,
  .drain, .publish]

def committedWith (x : Option StreamState) (p : Metadata → Bool) : Bool :=
 match x with
 | none => false
 | some st => st.commits.any p

theorem exists_of_committedWith {x : Option StreamState} {p : Metadata → Bool}
  (passes : committedWith x p = true) :
  ∃ st md, x = some st ∧ md ∈ st.commits ∧ p md = true := by
 cases x with
 | none => cases passes
 | some st =>
  obtain ⟨md, member, holds⟩ := List.any_eq_true.mp passes
  exact ⟨st, md, rfl, member, holds⟩

def sameFrames : List Bytes := [[40, 181, 47, 253], [40, 181, 47, 253]]

def otherFrames : List Bytes := [[40, 181, 47, 253], [40, 181, 47, 254]]

/-- Two equal chunks that end a layer each become two layers of one blob, and neither backup can
be read again. -/
theorem equal_layers_refused :
  (∃ md, backupWith (localEnv sameFrames) localConfig zeroFeed (fixedBoundary 4) = .ok md ∧
   Storable (maxStoredChunkBytes md.manifest)
    (storedChunks (frames sameFrames) (number 0 zeroFeed.data)) ∧
   CollisionFree {content | content ∈ layerContents (frames sameFrames)
    (Backup.Pipeline.policyOf localConfig) (fixedBoundary 4) zeroFeed.data} ∧
   validateChunkTable md.manifest md.table ≠ .ok ()) ∧
  ∃ st md, run (streamEnv sameFrames) streamConfig
    (StreamState.start (fixedBoundary 4) (zeros 2)) twoLayers = some st ∧
   md ∈ st.commits ∧ Storable (maxStoredChunkBytes md.manifest)
    (storedChunks (frames sameFrames) (number 0 (zeros 2))) ∧
   CollisionFree {content | content ∈ layerContents (frames sameFrames)
    (Stream.policyOf streamConfig) (fixedBoundary 4) (zeros 2)} ∧
   validateChunkTable md.manifest md.table ≠ .ok () := by
 constructor
 · obtain ⟨md, result, checks⟩ := exists_of_okWith
    (x := backupWith (localEnv sameFrames) localConfig zeroFeed (fixedBoundary 4))
    (p := fun md => decide (Storable (maxStoredChunkBytes md.manifest)
     (storedChunks (frames sameFrames) (number 0 zeroFeed.data)) ∧
     validateChunkTable md.manifest md.table ≠ .ok ())) (by decide +kernel)
   obtain ⟨storable, refused⟩ := of_decide_eq_true checks
   exact ⟨md, result, storable, collisionFree_list (by decide +kernel), refused⟩
 · obtain ⟨st, md, ends, committed, checks⟩ := exists_of_committedWith
    (x := run (streamEnv sameFrames) streamConfig (StreamState.start (fixedBoundary 4) (zeros 2))
     twoLayers)
    (p := fun md => decide (Storable (maxStoredChunkBytes md.manifest)
     (storedChunks (frames sameFrames) (number 0 (zeros 2))) ∧
     validateChunkTable md.manifest md.table ≠ .ok ())) (by decide +kernel)
   obtain ⟨storable, refused⟩ := of_decide_eq_true checks
   exact ⟨st, md, ends, committed, storable, collisionFree_list (by decide +kernel), refused⟩

/-- The same chunks under frames that differ, as a random nonce makes them, are accepted. -/
theorem distinct_layers_accepted :
  (∃ md, backupWith (localEnv otherFrames) localConfig zeroFeed (fixedBoundary 4) = .ok md ∧
   validateChunkTable md.manifest md.table = .ok ()) ∧
  ∃ st md, run (streamEnv otherFrames) streamConfig
    (StreamState.start (fixedBoundary 4) (zeros 2)) twoLayers = some st ∧
   md ∈ st.commits ∧ validateChunkTable md.manifest md.table = .ok () := by
 constructor
 · obtain ⟨md, result, checks⟩ := exists_of_okWith
    (x := backupWith (localEnv otherFrames) localConfig zeroFeed (fixedBoundary 4))
    (p := fun md => decide (Storable (maxStoredChunkBytes md.manifest)
     (storedChunks (frames otherFrames) (number 0 zeroFeed.data)))) (by decide +kernel)
   have accepted := (tables_accepted_iff (fixedBoundary 4)).1 (localEnv otherFrames) localConfig
    zeroFeed md result (of_decide_eq_true checks) (collisionFree_list (by decide +kernel))
   exact ⟨md, result, accepted.mpr ⟨by decide +kernel, by decide +kernel⟩⟩
 · obtain ⟨st, md, ends, committed, checks⟩ := exists_of_committedWith
    (x := run (streamEnv otherFrames) streamConfig (StreamState.start (fixedBoundary 4) (zeros 2))
     twoLayers)
    (p := fun md => decide (Storable (maxStoredChunkBytes md.manifest)
     (storedChunks (frames otherFrames) (number 0 (zeros 2))))) (by decide +kernel)
   have accepted := (tables_accepted_iff (fixedBoundary 4)).2 (streamEnv otherFrames) streamConfig
    (zeros 2) twoLayers st md ends committed (of_decide_eq_true checks)
    (collisionFree_list (by decide +kernel))
   exact ⟨st, md, ends, committed, accepted.mpr (by decide +kernel)⟩

end BackImage.Server.TableAgreement
