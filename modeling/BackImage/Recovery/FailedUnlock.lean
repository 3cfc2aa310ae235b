/- source: pkg/recovery/recovery.go
  digest: Which failures of Unlock leave a locked backup locked and unchanged. -/

import BackImage.Recovery.SelectedTar
import BackImage.Recovery.Unlock
import BackImage.Recovery.Verify

namespace BackImage.Recovery.FailedUnlock

open Crypt.Envelope Go.Text Index.Model Unlock SelectedTar StreamTar
open Verify

def withAead (pk : Packages) (ae : Aead) : Packages := { pk with aead := ae }

/-- No call that reads plaintext depends on what the cipher opens: the bytes it writes, what it
returns and its errors are the same whichever cipher stands behind it. -/
structure NothingDecrypted (pk : Packages) (b : Backup) : Prop where
 stream : ∀ ae run check, streamTar (withAead pk ae) run b check = streamTar pk run b check
 selected : ∀ ae idx selected check,
  streamSelectedTar (withAead pk ae) b idx selected check =
   streamSelectedTar pk b idx selected check
 tolerant : ∀ ae run idx selected check,
  streamSelectedTarPartial (withAead pk ae) run b idx selected check =
   streamSelectedTarPartial pk run b idx selected check
 index : ∀ ae, b.index (withAead pk ae) = b.index pk
 verified : ∀ ae run keepGoing,
  verify (withAead pk ae) run b true keepGoing = verify pk run b true keepGoing

section Locked

variable {pk : Packages} {b : Backup}

theorem locked_iff : b.isUnlocked = false ↔ b.manifest.encryption.enabled = true ∧
  b.key = none := by
 unfold Backup.isUnlocked
 cases b.manifest.encryption.enabled <;> cases b.key <;> simp

theorem plainChunkPayload_locked (locked : b.isUnlocked = false) (i : Nat) :
  plainChunkPayload pk b i = .error .wrongPassphrase := by
 unfold plainChunkPayload
 rw [if_pos (locked_iff.mp locked)]

theorem plainChunkBytes_locked (locked : b.isUnlocked = false) (i : Nat) (check : Bool) :
  plainChunkBytes pk b i check = .error .wrongPassphrase := by
 unfold plainChunkBytes
 rw [plainChunkPayload_locked locked]

variable {run : Schedule}

theorem streamOneChunk_locked (locked : b.isUnlocked = false) (check : Bool) (i : Nat) (c : Chunk) :
  streamOneChunk pk run b check i c = ([], .error .wrongPassphrase) := by
 unfold streamOneChunk
 rw [plainChunkPayload_locked locked]

theorem index_locked (locked : b.isUnlocked = false) : b.index pk = .error .wrongPassphrase := by
 unfold Backup.index
 rw [if_pos (locked_iff.mp locked)]

theorem plainFault_locked (locked : b.isUnlocked = false) (i : Nat) (c : Chunk) :
  plainFault pk run b i c = some (.chunk .wrongPassphrase) := by
 unfold plainFault
 rw [plainChunkPayload_locked locked]

variable {ae : Aead}

theorem streamFrom_locked {check : Bool} (locked : b.isUnlocked = false) (i : Nat)
  (chunks : List Chunk) :
  streamFrom (withAead pk ae) run b check i chunks = streamFrom pk run b check i chunks := by
 cases chunks with
 | nil => rfl
 | cons c rest =>
  rw [streamFrom, streamFrom, streamOneChunk_locked locked, streamOneChunk_locked locked]

theorem verifyFrom_locked {keepGoing : Bool}
  (locked : b.isUnlocked = false) (i : Nat) (chunks : List Chunk) (res : Verify.VerifyResult) :
  verifyFrom (withAead pk ae) run b true keepGoing i chunks res =
   verifyFrom pk run b true keepGoing i chunks res := by
 have same : ∀ i c, chunkFault (withAead pk ae) run b true i c = chunkFault pk run b true i c := by
  intro i c
  unfold chunkFault
  rw [plainFault_locked locked, plainFault_locked locked]
 induction chunks generalizing i res with
 | nil => rfl
 | cons c rest ih =>
  rw [verifyFrom, verifyFrom, same]
  simp only [ih]

theorem nothingDecrypted_of_locked (locked : b.isUnlocked = false) : NothingDecrypted pk b := by
 have loads : ∀ ae, plainChunkBytes (withAead pk ae) b = plainChunkBytes pk b := by
  intro ae
  funext i check
  rw [plainChunkBytes_locked locked, plainChunkBytes_locked locked]
 have strict : ∀ ae, loadStrict (withAead pk ae) b = loadStrict pk b := by
  intro ae
  unfold loadStrict
  rw [loads]
 have tolerant : ∀ ae, loadTolerant (withAead pk ae) b = loadTolerant pk b := by
  intro ae
  unfold loadTolerant
  rw [loads]
 constructor
 · intro ae run check
   exact streamFrom_locked locked 0 b.table.chunks
 · intro ae idx selected check
   unfold streamSelectedTar
   rw [strict]
 · intro ae run idx selected check
   unfold streamSelectedTarPartial streamTarPartial
   rw [tolerant]
 · intro ae
   rw [index_locked locked, index_locked locked]
 · intro ae run keepGoing
   unfold verify
   rw [verifyFrom_locked locked, index_locked locked, index_locked locked]

end Locked

/-- Locked as before, with the metadata it had, and no later call decrypts anything. -/
structure StillLocked (pk : Packages) (b b' : Backup) : Prop where
 locked : b'.isUnlocked = false
 manifest : b'.manifest = b.manifest
 table : b'.table = b.table
 reads : NothingDecrypted pk b'

/-- The key file cannot be opened, does not unwrap with these credentials, or fails to close. -/
def KeyRefused (pk : Packages) (id : Identity) (backend : Backend) : Prop :=
 match backend.openKeyFile (keyFileName id) with
 | .error _ => True
 | .ok (file, closeErr) => (∀ km, unwrapKeys pk.age id file ≠ .ok km) ∨ closeErr ≠ none

section Failed

variable {pk : Packages} {id : Identity} {b b' : Backup}

variable {backend : Backend}

theorem obtainKey_error_iff : (∃ e, obtainKey pk id backend = .error e) ↔
  KeyRefused pk id backend := by
 unfold obtainKey KeyRefused
 cases backend.openKeyFile (keyFileName id) with
 | error e => simp
 | ok opened =>
  obtain ⟨file, closeErr⟩ := opened
  dsimp only
  cases unwrapKeys pk.age id file with
  | error e => simp
  | ok km => cases closeErr <;> simp

theorem validate_of_obtainKey {km : KeyMaterial}
  (obtained : obtainKey pk id backend = .ok km) : km.validate = true := by
 unfold obtainKey at obtained
 cases opened : backend.openKeyFile (keyFileName id) with
 | error e => simp [opened] at obtained
 | ok pair =>
  obtain ⟨file, closeErr⟩ := pair
  simp only [opened] at obtained
  cases unwrapped : unwrapKeys pk.age id file with
  | error e => simp [unwrapped] at obtained
  | ok material =>
   have valid := validate_of_unwrapKeys unwrapped
   simp only [unwrapped] at obtained
   cases closeErr with
   | some e => cases obtained
   | none =>
    cases obtained
    exact valid

theorem loadPrivate_keeps_key (b : Backup) : (loadPrivate pk b).1.key = b.key ∧
   (loadPrivate pk b).1.manifest.encryption.enabled = b.manifest.encryption.enabled := by
 unfold loadPrivate
 split
 · exact ⟨rfl, rfl⟩
 · exact ⟨rfl, rfl⟩
 · split
   · exact ⟨rfl, rfl⟩
   · split
     · exact ⟨rfl, rfl⟩
     · split
       · exact ⟨rfl, rfl⟩
       · split <;> exact ⟨rfl, mergePrivate_enabled _ _ _⟩

variable {e : UnlockError}

theorem unlock_error (enabled : b.manifest.encryption.enabled = true)
  (failed : unlock pk id b = (b', .error e)) : (∃ cause, obtainKey pk id b.backend = .error cause) ∧
  b' = b ∨
   ∃ km, obtainKey pk id b.backend = .ok km ∧
    b' = (loadPrivate pk (b.install enabled km)).1 := by
 unfold unlock at failed
 rw [dif_pos enabled] at failed
 cases obtained : obtainKey pk id b.backend with
 | error cause =>
  simp only [obtained] at failed
  cases failed
  exact .inl ⟨⟨_, rfl⟩, rfl⟩
 | ok km =>
  have opener : newKeyedOpener km = some (.keyed km.dek) := by
   unfold newKeyedOpener
   rw [if_pos (validate_of_obtainKey obtained)]
  simp only [obtained, opener] at failed
  refine .inr ⟨km, rfl, ?_⟩
  rcases loaded : loadPrivate pk (b.install enabled km) with ⟨after, outcome⟩
  rw [loaded] at failed
  cases outcome with
  | error cause =>
   cases failed
   rfl
  | ok done => cases failed

/-- A failed unlock leaves the backup locked, its metadata unchanged and its data closed exactly
when it failed over the key file: after that the key is installed and nothing takes it back. -/
theorem failed_unlock_locked_iff (locked : b.isUnlocked = false)
  (failed : unlock pk id b = (b', .error e)) : StillLocked pk b b' ↔
  KeyRefused pk id b.backend := by
 obtain ⟨enabled, keyless⟩ := locked_iff.mp locked
 rw [← obtainKey_error_iff]
 rcases unlock_error enabled failed with ⟨refused, rfl⟩ | ⟨km, obtained, after⟩
 · exact iff_of_true ⟨locked, rfl, rfl, nothingDecrypted_of_locked locked⟩ refused
 · have held : b'.key = some km := by
    rw [after, (loadPrivate_keeps_key _).1]
    rfl
   refine iff_of_false ?_ ?_
   · rintro ⟨still, -, -, -⟩
     have none_ := (locked_iff.mp still).2
     rw [held] at none_
     cases none_
   · rintro ⟨cause, refused⟩
     rw [obtained] at refused
     cases refused

end Failed

def openPackages : Packages :=
 { storePackages with
   age := ⟨Unit, fun _ => .ok (some ()), fun _ _ => some [], fun _ => some currentKey⟩
   decoders := ⟨fun _ => .error [], fun _ => .ok ⟨2, []⟩⟩ }

def sealedIndex : Bytes :=
 Crypt.Envelope.sealBlob storePackages.aead currentKey.dek currentKey.nonceKey .random
  (List.replicate 12 0) .index 0 .zstd [1]

def withoutPrivate (keyFile : Except Str Bytes) : Backend :=
 .blobs ⟨fun _ => keyFile, .ok sealedIndex, .error (lit "unreachable"), fun _ => .error []⟩

def lockedBackup (keyFile : Except Str Bytes) : Backup :=
 Backup.fresh (withoutPrivate keyFile) boundManifest ⟨2, []⟩

/-- The unlock fails, yet the backup counts as unlocked and hands out its file index. -/
theorem unreachable_private_unlocks :
  ∃ b b' e idx, newBackup (withoutPrivate (.ok [])) boundManifest ⟨2, []⟩ = .ok b ∧
   b.isUnlocked = false ∧ unlock openPackages passphrase b = (b', .error e) ∧
   b'.isUnlocked = true ∧ b'.index openPackages = .ok idx ∧ ¬ StillLocked openPackages b b' := by
 have unlocks : (unlock openPackages passphrase (lockedBackup (.ok []))).1.isUnlocked = true := by
  decide +kernel
 refine ⟨lockedBackup (.ok []), (unlock openPackages passphrase (lockedBackup (.ok []))).1,
  .confidential (.opening Index.Private.privatePath (.fetch (lit "unreachable"))), ⟨2, []⟩,
  rfl, by decide +kernel, Prod.ext rfl (by decide +kernel), unlocks, by decide +kernel, ?_⟩
 rintro ⟨still, -, -, -⟩
 rw [unlocks] at still
 cases still

theorem missing_key_file_locked :
  ∃ b b' e, unlock openPackages passphrase b = (b', .error e) ∧ StillLocked openPackages b b' := by
 have failed : unlock openPackages passphrase (lockedBackup (.error (lit "gone"))) =
   (lockedBackup (.error (lit "gone")),
    .error (.openKey (lit "keys.pass.age") (lit "gone"))) :=
  rfl
 exact ⟨_, _, _, failed, (failed_unlock_locked_iff (by decide +kernel) failed).mpr trivial⟩

end BackImage.Recovery.FailedUnlock
