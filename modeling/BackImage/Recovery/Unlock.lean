/- source: pkg/recovery/recovery.go, pkg/index/binding.go
  digest: What unlocking a validated backup does to its key, opener and metadata, and what it
    binds. -/

import BackImage.Crypt.Envelope
import BackImage.Crypt.Integrity
import BackImage.Index.Confidential
import BackImage.Index.Private
import BackImage.Recovery.ChunkLayout

namespace BackImage.Recovery.Unlock

open ChunkLayout Crypt.Envelope Crypt.Integrity Go.Text Index.Confidential Index.Limiter
open Index.Limits Index.Model Index.Private Lib.Reading

/-- An opened file: its bytes from the start, what `Stat` says of a regular file, where a `Seek`
leads, and the outcome of closing it. -/
structure OpenFile where
 body : Script UInt8 Str
 size : Option Int64
 seek : Int64 → Option (Script UInt8 Str)
 closeErr : Option Str

structure Source where
 openFile : Str → Except Str OpenFile

structure BlobSource where
 keyFile : Str → Except Str Bytes
 indexBlob : Except Str Bytes
 privateBlob : Except Str Bytes
 blob : Nat → Except Str Bytes

inductive Backend
 | source (s : Source)
 | blobs (s : BlobSource)

structure Decompression where
 body : Script UInt8 Str
 closeErr : Option Str

structure Packages where
 aead : Aead
 age : Age
 json : Json
 decoders : Decoders
 newReader : Codec → Bytes → Except Str Decompression

inductive BlobError
 | fetch (cause : Str)
 | reading (cause : LimitError Str)
 | closing (cause : Str)
 deriving DecidableEq

def OpenFile.measure (f : OpenFile) : Int64 := f.size.getD 0

def readMetadataBlob (f : OpenFile) (what : Str) : Except (LimitError Str) Bytes :=
 (limitMetadata Script.reader f.measure what).readAll ⟨f.body, 0⟩

def Backend.metadataBlob (backend : Backend) (answer : BlobSource → Except Str Bytes)
  (path : Str) : Except BlobError Bytes :=
 match backend with
 | .blobs s =>
  match answer s with
  | .error e => .error (.fetch e)
  | .ok data => .ok data
 | .source s =>
  match s.openFile path with
  | .error e => .error (.fetch e)
  | .ok f =>
   match readMetadataBlob f path with
   | .error e => .error (.reading e)
   | .ok data =>
    match f.closeErr with
    | some e => .error (.closing e)
    | none => .ok data

structure Backup where
 backend : Backend
 manifest : Manifest
 table : ChunkTable
 layout : Layout
 opener : Option Opener
 key : Option KeyMaterial
 binding : Option Binding
 keyed : ∀ km, key = some km → opener = some (.keyed km.dek)
 clear : manifest.encryption.enabled = false → opener = some .clear

inductive NewBackupError
 | count (declared : Int) (held : Nat)
 | strayPrivate
 | missingPrivate (schema : Int)
 | table (cause : TableError)
 deriving DecidableEq

def checkEncryptionShape (m : Manifest) : Except NewBackupError Unit :=
 if m.privateRef ≠ none ∧ m.encryption.enabled = false then .error .strayPrivate
 else if m.encryption.enabled ∧ schemaVersionPrivate ≤ m.schemaVersion ∧ m.privateRef = none then
  .error (.missingPrivate m.schemaVersion)
 else .ok ()

def Backup.fresh (backend : Backend) (m : Manifest) (t : ChunkTable) : Backup where
 backend := backend
 manifest := m
 table := t
 layout := computeLayout t
 opener := if m.encryption.enabled then none else some .clear
 key := none
 binding := none
 keyed _ held := nomatch held
 clear plain := by rw [plain]; rfl

/-- An archive that is neither compressed nor sealed. -/
def storedManifest : Manifest :=
 { (default : Manifest) with archive :=
  { (default : ArchiveInfo) with compression := lit "store" } }

def storedBackup (chunk : Nat → Except Str Bytes) (rows : List Chunk) : Backup :=
 .fresh (.blobs ⟨fun _ => .error [], .error [], .error [], chunk⟩) storedManifest ⟨1, rows⟩

def newBackup (backend : Backend) (m : Manifest) (t : ChunkTable) : Except NewBackupError Backup :=
 if m.chunking.count ≠ t.chunks.length then .error (.count m.chunking.count t.chunks.length)
 else
  match checkEncryptionShape m with
  | .error e => .error e
  | .ok () =>
   match validateChunkTable m t with
   | .error e => .error (.table e)
   | .ok () => .ok (Backup.fresh backend m t)

def Backup.isUnlocked (b : Backup) : Bool := !b.manifest.encryption.enabled || b.key.isSome

inductive PrivateError
 | opening (path : Str) (cause : BlobError)
 | reading (cause : ReadSealedError)
 | unbound
 | binding (cause : BindingError)
 | merging (cause : MergeError)
 deriving DecidableEq

inductive UnlockError
 | openKey (name cause : Str)
 | unwrap (cause : UnwrapError)
 | closeKey (cause : Str)
 | opener
 | confidential (cause : PrivateError)
 deriving DecidableEq

def current (k : KeyMaterial) : Bool :=
 k.attested && decide ((envelopeVersion.toNat : Int) ≤ k.envelopeVersion)

def checkBinding (json : Json) (key : Option KeyMaterial) (m : Manifest) (t : ChunkTable)
  (p : PrivateData) : Except PrivateError Unit :=
 match p.binding with
 | none =>
  if key.any current then .error .unbound else .ok ()
 | some binding =>
  match check json binding m t with
  | .error e => .error (.binding e)
  | .ok () => .ok ()

theorem mergePrivate_enabled (m : Manifest) (t : ChunkTable) (p : PrivateData) :
  (mergePrivate m t p).1.encryption.enabled = m.encryption.enabled := by
 unfold mergePrivate
 split
 · rfl
 · split <;> rfl

def Backup.merged (b : Backup) (p : PrivateData) : Backup :=
 { b with
   manifest := (mergePrivate b.manifest b.table p).1
   table := (mergePrivate b.manifest b.table p).2.1
   clear := by rw [mergePrivate_enabled]; exact b.clear }

def loadPrivate (pk : Packages) (b : Backup) : Backup × Except PrivateError Unit :=
 match b.manifest.privateRef, b.opener with
 | none, _ => (b, .ok ())
 | _, none => (b, .ok ())
 | some ref, some opener =>
  match b.backend.metadataBlob BlobSource.privateBlob ref.path with
  | .error e => (b, .error (.opening ref.path e))
  | .ok data =>
   match readPrivate pk.aead pk.decoders data (some opener) with
   | .error e => (b, .error (.reading e))
   | .ok p =>
    match checkBinding pk.json b.key b.manifest b.table p with
    | .error e => (b, .error e)
    | .ok () =>
     match (mergePrivate b.manifest b.table p).2.2 with
     | .error e => (b.merged p, .error (.merging e))
     | .ok () =>
      ({ b.merged p with
          binding := p.binding
          layout := computeLayout (b.merged p).table }, .ok ())

def keyFileName (id : Identity) : Str :=
 if id.ageKeyFile ≠ [] then lit "keys.age" else lit "keys.pass.age"

def Backend.openKeyFile (backend : Backend) (name : Str) :
  Except Str (Script UInt8 Str × Option Str) :=
 match backend with
 | .blobs s =>
  match s.keyFile name with
  | .error e => .error e
  | .ok data => .ok (Script.ofList data, none)
 | .source s =>
  match s.openFile name with
  | .error e => .error e
  | .ok f => .ok (f.body, f.closeErr)

/-- `Unlock` up to the unwrapped key. -/
def obtainKey (pk : Packages) (id : Identity) (backend : Backend) :
  Except UnlockError KeyMaterial :=
 match backend.openKeyFile (keyFileName id) with
 | .error e => .error (.openKey (keyFileName id) e)
 | .ok (file, closeErr) =>
  match unwrapKeys pk.age id file with
  | .error e => .error (.unwrap e)
  | .ok km =>
   match closeErr with
   | some e => .error (.closeKey e)
   | none => .ok km

/-- `b.key, b.opener = km, opener`. -/
def Backup.install (b : Backup) (enabled : b.manifest.encryption.enabled = true)
  (km : KeyMaterial) : Backup :=
 { b with
   key := some km
   opener := some (.keyed km.dek)
   keyed := fun _ held => by cases held; rfl
   clear := fun plain => by rw [enabled] at plain; cases plain }

def unlock (pk : Packages) (id : Identity) (b : Backup) : Backup × Except UnlockError Unit :=
 if enabled : b.manifest.encryption.enabled = true then
  match obtainKey pk id b.backend with
  | .error e => (b, .error e)
  | .ok km =>
   match newKeyedOpener km with
   | none => (b, .error .opener)
   | some _ =>
    match loadPrivate pk (b.install enabled km) with
    | (b, .error e) => (b, .error (.confidential e))
    | (b, .ok ()) => (b, .ok ())
 else (b, .ok ())

inductive IndexError
 | wrongPassphrase
 | opening (cause : BlobError)
 | binding (cause : BindingError)
 | reading (cause : ReadSealedError)
 deriving DecidableEq

def Backup.index (pk : Packages) (b : Backup) : Except IndexError FileIndex :=
 if b.manifest.encryption.enabled ∧ b.key = none then .error .wrongPassphrase
 else
  match b.backend.metadataBlob BlobSource.indexBlob b.manifest.index.path with
  | .error e => .error (.opening e)
  | .ok data =>
   match checkIndexBlob b.binding data with
   | .error e => .error (.binding e)
   | .ok () =>
    match readIndex pk.aead pk.decoders data b.opener with
    | .error e => .error (.reading e)
    | .ok idx => .ok idx

variable {pk : Packages} {b b' : Backup}

theorem loadPrivate_ok (result : loadPrivate pk b = (b', .ok ())) :
  b.manifest.privateRef = none ∧ b' = b ∨ b.opener = none ∧ b' = b ∨
   ∃ ref data p, b.manifest.privateRef = some ref ∧
    b.backend.metadataBlob BlobSource.privateBlob ref.path = .ok data ∧
    Index.Private.readPrivate pk.aead pk.decoders data b.opener = .ok p ∧
    checkBinding pk.json b.key b.manifest b.table p = .ok () ∧ b' = { b.merged p with
     binding := p.binding
     layout := ChunkLayout.computeLayout (b.merged p).table } := by
 unfold loadPrivate at result
 cases declared : b.manifest.privateRef with
 | none =>
  simp only [declared] at result
  cases result
  exact .inl ⟨rfl, rfl⟩
 | some ref =>
  cases opening : b.opener with
  | none =>
   simp only [declared, opening] at result
   cases result
   exact .inr (.inl ⟨rfl, rfl⟩)
  | some opener =>
   simp only [declared, opening] at result
   cases fetched : b.backend.metadataBlob BlobSource.privateBlob ref.path with
   | error e => simp [fetched] at result
   | ok data =>
    simp only [fetched] at result
    cases decoded : Index.Private.readPrivate pk.aead pk.decoders data (some opener) with
    | error e => simp [decoded] at result
    | ok p =>
     simp only [decoded] at result
     cases bound : checkBinding pk.json b.key b.manifest b.table p with
     | error e => simp [bound] at result
     | ok _ =>
      simp only [bound] at result
      split at result
      · cases result
      · cases result
        exact .inr (.inr ⟨ref, data, p, rfl, fetched, decoded, bound, rfl⟩)

theorem unlock_ok {id : Identity}
  (enabled : b.manifest.encryption.enabled = true) (result : unlock pk id b = (b', .ok ())) :
  ∃ km, obtainKey pk id b.backend = .ok km ∧
   loadPrivate pk (b.install enabled km) = (b', .ok ()) := by
 unfold unlock at result
 rw [dif_pos enabled] at result
 cases obtained : obtainKey pk id b.backend with
 | error e => simp [obtained] at result
 | ok km =>
  simp only [obtained] at result
  cases keyed : newKeyedOpener km with
  | none => simp [keyed] at result
  | some opener =>
   simp only [keyed] at result
   cases loaded : loadPrivate pk (b.install enabled km) with
   | mk b₁ outcome =>
    cases outcome with
    | error e => simp [loaded] at result
    | ok _ =>
     simp only [loaded] at result
     cases result
     exact ⟨km, rfl, loaded⟩

/-- The unlocked backup is bound: a private blob was read that opens under the key in its role and
was sealed there, it carried a binding, and the binding accepts the metadata now in use. -/
def Bound (pk : Packages) (km : KeyMaterial) (history : List SealCall) (b b' : Backup) : Prop :=
 ∃ ref data payload codec p binding,
  b.manifest.privateRef = some ref ∧
  b.backend.metadataBlob BlobSource.privateBlob ref.path = .ok data ∧
  (Opener.keyed km.dek).open pk.aead .confidential 0 data = .ok (payload, codec) ∧
  (∃ call ∈ history, call.role = .confidential ∧ call.codec = codec ∧ call.payload = payload) ∧
  pk.decoders.private_ payload = .ok p ∧
  p.binding = some binding ∧
  check pk.json binding b'.manifest b'.table = .ok () ∧
  b'.binding = some binding

variable {m : Manifest} {t : ChunkTable}

theorem newBackup_ok {backend : Backend} (opened : newBackup backend m t = .ok b) :
  b = Backup.fresh backend m t := by
 unfold newBackup at opened
 split at opened
 · cases opened
 · split at opened
   · cases opened
   · split at opened
     · cases opened
     · cases opened
       rfl

theorem checkBinding_current {json : Json} {km : KeyMaterial}
  {p : PrivateData} (attests : current km = true)
  (passed : checkBinding json (some km) m t p = .ok ()) :
  ∃ binding, p.binding = some binding ∧ check json binding m t = .ok () := by
 unfold checkBinding at passed
 cases carried : p.binding with
 | none => simp [carried, attests] at passed
 | some binding =>
  simp only [carried] at passed
  cases checked : check json binding m t with
  | error e => simp [checked] at passed
  | ok _ => exact ⟨binding, rfl, checked⟩

/-- Under a current key, an unlocked backup is bound exactly when its manifest names a private
blob. -/
theorem unlock_bound_iff {id : Identity} {backend : Backend} {km : KeyMaterial}
  {history : List SealCall}
  (opened : newBackup backend m t = .ok b) (enabled : m.encryption.enabled = true)
  (unlocked : unlock pk id b = (b', .ok ())) (held : b'.key = some km)
  (attests : current km = true) (ideal : IdealUnder pk.aead km.dek km.nonceKey history) :
  Bound pk km history b b' ↔ m.privateRef.isSome = true := by
 have fresh := newBackup_ok opened
 subst fresh
 constructor
 · rintro ⟨ref, -, -, -, -, -, named, -⟩
   exact Option.isSome_of_eq_some named
 · intro named
   obtain ⟨km', -, loaded⟩ := unlock_ok enabled unlocked
   rcases loadPrivate_ok loaded with ⟨missing, -⟩ | ⟨missing, -⟩ |
    ⟨ref, data, p, declared, fetched, decoded, passed, rfl⟩
   · have unnamed : m.privateRef = none := missing
     rw [unnamed] at named
     cases named
   · cases missing
   · -- the key in use is the one that was just installed
     have same : km' = km := Option.some.inj held
     subst same
     obtain ⟨dek, payload, codec, opener, authentic, decodes⟩ := readPrivate_ok decoded
     cases opener
     obtain ⟨binding, carried, checked⟩ := checkBinding_current attests passed
     obtain ⟨call, member, -, role, sealedCodec, sealedPayload, -⟩ := sealed_of_open ideal authentic
     refine ⟨ref, data, payload, codec, p, binding, declared, fetched, authentic,
      ⟨call, member, role, sealedCodec, sealedPayload⟩, decodes, carried, ?_, carried⟩
     exact (check_merged pk.json binding _ _ p).trans checked

def oneCall : SealCall := ⟨.random, List.replicate 12 7, .confidential, 0, .zstd, [1]⟩

def oneCipher : Aead where
 seal_ _ _ payload _ := payload
 open_ _ nonce ciphertext ad :=
  if nonce = oneCall.drawn ∧ ciphertext = oneCall.payload ∧ ad = oneCall.ad then
   some oneCall.payload
  else none

theorem ideal_oneCipher (dek nonceKey : Bytes) : IdealUnder oneCipher dek nonceKey [oneCall] := by
 intro nonce ciphertext ad payload opened
 refine ⟨oneCall, List.mem_singleton.mpr rfl, ?_⟩
 by_cases sealed : nonce = oneCall.drawn ∧ ciphertext = oneCall.payload ∧ ad = oneCall.ad
 · obtain ⟨rfl, rfl, rfl⟩ := sealed
   have same : oneCall.payload = payload := by simpa [oneCipher] using opened
   exact ⟨rfl, rfl, same.symm, same⟩
 · simp [oneCipher, sealed] at opened

def currentKey : KeyMaterial :=
 ⟨2, 3, lit "random", lit "never", List.replicate 32 1, List.replicate 32 2⟩

def emptyManifest (schema : Int) (confidential : Option Ref) : Manifest :=
 { (default : Manifest) with
   schemaVersion := schema
   tool := ⟨lit "backimage", lit "1"⟩
   createdAt := 1
   archive := ⟨lit "tar", lit "zstd", 3⟩
   encryption := { (default : EncryptionInfo) with enabled := true }
   chunking := { (default : ChunkingInfo) with strategy := lit "length", targetChunkBytes := 1 }
   index := ⟨lit "index.json.zst", [], true⟩
   privateRef := confidential }

def boundManifest : Manifest := emptyManifest 2 (some ⟨Index.Private.privatePath, [], true⟩)

def boundPrivate : PrivateData :=
 { (default : PrivateData) with
   schemaVersion := 2
   binding := some ⟨Go.Sha256.digestText [], Go.Sha256.digestText [], [], policyOf boundManifest⟩ }

def onePackages : Packages where
 aead := oneCipher
 age := ⟨Unit, fun _ => .ok (some ()), fun _ _ => some [], fun _ => some currentKey⟩
 json := ⟨fun _ => some [], fun _ => some []⟩
 decoders := ⟨fun _ => .ok boundPrivate, fun _ => .error []⟩
 newReader _ _ := .error []

def oneBackend : Backend :=
 .blobs
  { keyFile := fun _ => .ok []
    indexBlob := .ok []
    privateBlob := .ok (Crypt.Envelope.sealBlob oneCipher currentKey.dek currentKey.nonceKey .random
     oneCall.drawn .confidential 0 .zstd oneCall.payload)
    blob := fun _ => .error [] }

def passphrase : Identity := ⟨lit "secret", []⟩

/-- A manifest of schema 1 that names no private blob unlocks under a current key with nothing
bound. -/
theorem schema_one_unbound : checkManifest (emptyManifest 1 none) = .ok (emptyManifest 1 none) ∧
  ∃ b b', newBackup oneBackend (emptyManifest 1 none) ⟨1, []⟩ = .ok b ∧
   (emptyManifest 1 none).encryption.enabled = true ∧
   unlock onePackages passphrase b = (b', .ok ()) ∧ b'.key = some currentKey ∧
   current currentKey = true ∧
   IdealUnder onePackages.aead currentKey.dek currentKey.nonceKey [oneCall] ∧
   ¬ Bound onePackages currentKey [oneCall] b b' := by
 refine ⟨by decide +kernel, Backup.fresh oneBackend (emptyManifest 1 none) ⟨1, []⟩,
  (unlock onePackages passphrase (Backup.fresh oneBackend (emptyManifest 1 none) ⟨1, []⟩)).1,
  rfl, rfl, Prod.ext rfl (by decide +kernel), by decide +kernel, by decide +kernel,
  ideal_oneCipher _ _, ?_⟩
 rintro ⟨ref, -, -, -, -, -, named, -⟩
 cases named

/-- The same key and the blob it sealed, named by the manifest. -/
theorem schema_two_bound : ∃ b b', newBackup oneBackend boundManifest ⟨2, []⟩ = .ok b ∧
   unlock onePackages passphrase b = (b', .ok ()) ∧
   Bound onePackages currentKey [oneCall] b b' := by
 have opened : newBackup oneBackend boundManifest ⟨2, []⟩ =
   .ok (Backup.fresh oneBackend boundManifest ⟨2, []⟩) := rfl
 have unlocked : unlock onePackages passphrase (Backup.fresh oneBackend boundManifest ⟨2, []⟩) =
   ((unlock onePackages passphrase (Backup.fresh oneBackend boundManifest ⟨2, []⟩)).1, .ok ()) :=
  Prod.ext rfl (by decide +kernel)
 exact ⟨_, _, opened, unlocked, (unlock_bound_iff opened rfl unlocked (by decide +kernel)
  (by decide +kernel) (ideal_oneCipher _ _)).mpr rfl⟩

end BackImage.Recovery.Unlock
