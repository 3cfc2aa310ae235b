/- source: pkg/server/stream.go, pkg/recovery/recovery.go
  digest: What a client streamed comes back from the image that the server published. -/

import BackImage.Recovery.RoundTrip
import BackImage.Server.TableAgreement

namespace BackImage.Server.StreamedRestore

open Chunk.Boundary Crypt.Envelope Go.Sha256 Go.Text Index.CutTables Index.Limits Index.Model
open Index.Private Lib.Wrap Recovery.ImageReads Recovery.RoundTrip Recovery.StreamTar
open Recovery.Unlock
open Server.Stream StreamRefinement TableAgreement
open Lib.Cut (cut flatten_cut ne_nil_of_mem_cut)

section Streamed

variable {env : StreamEnv} {cfg : StreamConfig} {boundary : LayerBoundary} {data : List Bytes}
 {st st' : StreamState}
 {md : Metadata}

/-- Metadata that `publish` assembled from a state with complete tables. -/
def Published (env : StreamEnv) (cfg : StreamConfig) (boundary : LayerBoundary) (data : List Bytes)
  (md : Metadata) : Prop :=
 ∃ st scan, Inv env cfg boundary data st ∧ st.phase = .publishing ∧
  assemble env.writer (manifestOf cfg scan st) ⟨schemaVersion, st.rows⟩ scan.entries = .ok md

theorem commits_receive (env : StreamEnv) (cfg : StreamConfig) (st : StreamState) :
  (receive env cfg st).commits = st.commits := by
 rcases receive_cases env cfg st with ⟨cause, -, is⟩ | ⟨-, is⟩ | ⟨ck, rest, stored, -, -, turn⟩
 · rw [is]
 · rw [is, commits_roll]
 · rcases turn with ⟨cause, -, is⟩ | is
   · rw [is]
     rfl
   · rw [is]
     split
     · rw [commits_roll]
       rfl
     · rfl

/-- Only `publish` hands metadata over. -/
theorem commits_of_transition (happens : Transition env cfg st st') :
  st'.commits = st.commits ∨ st.phase = .publishing ∧ st' = publish env cfg st := by
 cases happens with
 | publishes here => exact .inr ⟨here, rfl⟩
 | receives here => exact .inl (commits_receive env cfg st)
 | uploads p fault flying =>
  left
  unfold finishUpload
  split <;> rfl
 | drains here idle =>
  left
  unfold drain
  split
  · rfl
  · dsimp only
    split
    · rfl
    · split <;> rfl
 | _ => exact .inl rfl

theorem published_of_run {events : List Event}
  (ends : run env cfg (StreamState.start boundary data) events = some st) :
  ∀ md ∈ st.commits, Published env cfg boundary data md := by
 -- the invariant of the tables goes along, since `publish` reads them
 have kept := run_keeps
  (P := fun st => Inv env cfg boundary data st ∧ ∀ md ∈ st.commits,
   Published env cfg boundary data md)
  ⟨inv_start env cfg boundary data, fun md member => by cases member⟩ (fun t u both happens => by
   refine ⟨inv_transition both.1 happens, ?_⟩
   rcases commits_of_transition happens with same | ⟨here, rfl⟩
   · rw [same]
     exact both.2
   · unfold publish
     split
     · exact both.2
     · split
       · exact both.2
       · rename_i scan _ _ md assembled
         intro md' member
         rcases List.mem_append.mp member with old | new
         · exact both.2 md' old
         · rw [List.mem_singleton.mp new]
           exact ⟨t, scan, both.1, here, assembled⟩) ends
 exact kept.2

theorem finished_of_published (published : Published env cfg boundary data md) :
  ∃ k : Finished, k.store = env.store ∧ k.data = data ∧ k.md = md ∧
   k.layers = cut (rolls (policyOf cfg) boundary) (storedChunks env.store (number 0 data)) ∧
   ∃ scan st, k.manifest = manifestOf cfg scan st := by
 obtain ⟨st, scan, ⟨⟨done, received, inPhase⟩, -⟩, here, assembled⟩ := published
 rw [here] at inPhase
 obtain ⟨exceeds, rows, layers⟩ := inPhase
 have all := storedChunks_of_received received exceeds
 rw [rows] at assembled
 rw [all]
 refine ⟨⟨env.store, env.writer, data, _, manifestOf cfg scan st, scan.entries, md, ?_, ?_,
  fun _ member => ne_nil_of_mem_cut member, ?_, layers, assembled⟩, rfl, rfl, rfl, rfl, scan,
   st, rfl⟩
 · rw [flatten_cut, ← received.plains, exceeds, List.append_nil]
 · rw [flatten_cut]
   exact received.storedAs
 · rw [flatten_cut, ← received.counter]
   exact chunkingOf_count _ _ _ _ _

/-- Under every schedule of receiver and uploader, an unencrypted backup that the server published
and that opens gives back what was streamed to it. -/
theorem streamed_backup_restores {events : List Event} {pk : Packages} {codec : Codec}
  {backend : Backend} {b : Backup}
  (ends : run env cfg (StreamState.start boundary data) events = some st)
  (committed : md ∈ st.commits)
  (storable : Storable (maxStoredChunkBytes md.manifest) (storedChunks env.store (number 0 data)))
  (small : (data.flatten.length : Int) < bound)
  (free : CollisionFree {content | content ∈ layerContents env.store (policyOf cfg) boundary data})
  (serves : Serves (cut (rolls (policyOf cfg) boundary) (storedChunks env.store (number 0 data)))
   backend) (opened : newBackup backend md.manifest md.table = .ok b)
  (undoes : Undoes pk codec env.store.compress)
  (clear : cfg.encryption.enabled = false) (unsealed : env.store.sealer = none)
  (named : codecByName cfg.codecName = some codec) : Restores pk b data := by
 obtain ⟨k, store, rfl, rfl, layers, scan, st, manifest⟩ :=
  finished_of_published (published_of_run ends md committed)
 rw [← store] at undoes unsealed
 rw [← flatten_cut (rolls (policyOf cfg) boundary) (storedChunks env.store (number 0 k.data)),
  ← layers] at storable
 rw [layerContents, ← layers] at free
 rw [← layers] at serves
 refine k.restores_clear ⟨storable, small, free⟩ undoes serves opened ?_ unsealed ?_
 · simp only [manifest, manifestOf, clear]
   rfl
 · rw [manifest]
   exact named

end Streamed

def bareStream : StreamEnv := { streamEnv [] with store := Backup.BuilderLayers.plainEnv.store }

def storeStream : StreamConfig := { streamConfig with codecName := lit "store" }

theorem two_layers_restored : ∃ st md b,
   run bareStream storeStream (StreamState.start (fixedBoundary 2) twoChunks.data) twoLayers =
   some st ∧
   md ∈ st.commits ∧ newBackup (.source (layerFiles twoGroups)) md.manifest md.table = .ok b ∧
   streamTar storePackages calmSchedule b true = ([1, 2, 3, 4, 5], .ok ()) := by
 obtain ⟨st, md, ends, committed, checks⟩ := exists_of_committedWith
  (x := run bareStream storeStream (StreamState.start (fixedBoundary 2) twoChunks.data) twoLayers)
  (p := fun md => decide (Storable (maxStoredChunkBytes md.manifest)
    (storedChunks bareStream.store (number 0 twoChunks.data))) &&
   Lib.Sequence.okWith (newBackup (.source (layerFiles twoGroups)) md.manifest md.table) fun _ =>
    true) (by decide +kernel)
 obtain ⟨storable, accepts⟩ := Bool.and_eq_true_iff.mp checks
 obtain ⟨b, opened, -⟩ := Lib.Sequence.exists_of_okWith accepts
 have free : CollisionFree {content | content ∈ twoGroups.map layerContent} :=
  collisionFree_list (by decide +kernel)
 have undoes : Undoes storePackages .store bareStream.store.compress := by
  rintro _ data _ ⟨⟩
  exact ⟨_, rfl, Lib.Reading.Script.content_ofList data, rfl, rfl⟩
 have restores : Restores storePackages b twoChunks.data := streamed_backup_restores ends committed
  (of_decide_eq_true storable) (by decide +kernel) free (serves_layerFiles free) opened undoes
   rfl rfl rfl
 exact ⟨st, md, b, ends, committed, opened, restores.whole calmSchedule true fun _ => rfl⟩

end BackImage.Server.StreamedRestore
