/- source: pkg/index/binding.go, pkg/index/private.go, pkg/index/model.go
  digest: The digests that bind the metadata, its private half split off, written, read and merged
    back. -/

import BackImage.Crypt.Envelope
import BackImage.Go.Sha256
import BackImage.Index.Entries
import BackImage.Index.Limiter
import BackImage.Index.Model
import BackImage.Lib.Sequence

namespace BackImage.Index.Private

open Crypt.Envelope Entries Go.Sha256 Go.Text Lib.Sequence Lib.Reading Limiter Model

structure BindingPolicy where
 schema : Int
 aead : Str
 envelopeVersion : Int
 nonceMode : Str
 indexEncrypted : Bool
 deriving DecidableEq, Inhabited

structure Binding where
 manifest : Str
 chunks : Str
 index : Str
 policy : BindingPolicy
 deriving DecidableEq, Inhabited

structure Json where
 marshalManifest : Manifest → Option Bytes
 marshalTable : ChunkTable → Option Bytes

inductive PolicyField
 | schema | aead | envelopeVersion | nonceMode | indexEncrypted
 deriving DecidableEq

inductive BindingError
 | manifestNotSerialisable
 | tableNotSerialisable
 | policy (field : PolicyField)
 | manifestForeign (got want : Str)
 | chunksForeign (got want : Str)
 | indexForeign (got want : Str)
 deriving DecidableEq

def canonicalManifest (m : Manifest) : Manifest :=
 { m with
   privateRef := none
   sources := []
   host := default
   totals := default
   encryption := { m.encryption with keyFingerprint := [], recipients := [] } }

def canonicalTable (t : ChunkTable) : ChunkTable :=
 { t with chunks := t.chunks.map fun c => { c with ps := [], pb := 0 } }

def manifestBindingDigest (json : Json) (m : Manifest) : Except BindingError Str :=
 match json.marshalManifest (canonicalManifest m) with
 | none => .error .manifestNotSerialisable
 | some encoded => .ok (digestText encoded)

def chunkTableBindingDigest (json : Json) (t : ChunkTable) : Except BindingError Str :=
 match json.marshalTable (canonicalTable t) with
 | none => .error .tableNotSerialisable
 | some encoded => .ok (digestText encoded)

def blobBindingDigest (blob : Bytes) : Str := digestText blob

def policyOf (m : Manifest) : BindingPolicy where
 schema := m.schemaVersion
 aead := m.encryption.aead
 envelopeVersion := m.encryption.envelopeVersion
 nonceMode := m.encryption.nonceMode
 indexEncrypted := m.index.encrypted

def newBinding (json : Json) (m : Manifest) (t : ChunkTable) (indexBlob : Bytes) :
  Except BindingError Binding := do
 let manifestDigest ← manifestBindingDigest json m
 let chunksDigest ← chunkTableBindingDigest json t
 return ⟨manifestDigest, chunksDigest, blobBindingDigest indexBlob, policyOf m⟩

def checkPolicy (b : Binding) (m : Manifest) : Except BindingError Unit :=
 if b.policy.schema ≠ m.schemaVersion then .error (.policy .schema)
 else if b.policy.aead ≠ m.encryption.aead then .error (.policy .aead)
 else if b.policy.envelopeVersion ≠ m.encryption.envelopeVersion then
  .error (.policy .envelopeVersion)
 else if b.policy.nonceMode ≠ m.encryption.nonceMode then .error (.policy .nonceMode)
 else if b.policy.indexEncrypted ≠ m.index.encrypted then .error (.policy .indexEncrypted)
 else .ok ()

def check (json : Json) (b : Binding) (m : Manifest) (t : ChunkTable) : Except BindingError Unit :=
 do
 checkPolicy b m
 let manifestDigest ← manifestBindingDigest json m
 if manifestDigest ≠ b.manifest then .error (.manifestForeign manifestDigest b.manifest)
 else do
  let chunksDigest ← chunkTableBindingDigest json t
  if chunksDigest ≠ b.chunks then .error (.chunksForeign chunksDigest b.chunks) else .ok ()

def checkIndexBlob (b : Option Binding) (blob : Bytes) : Except BindingError Unit :=
 match b with
 | none => .ok ()
 | some b =>
  if b.index = [] then .ok ()
  else if blobBindingDigest blob ≠ b.index then
   .error (.indexForeign (blobBindingDigest blob) b.index)
  else .ok ()

theorem checkPolicy_ok_iff {b : Binding} {m : Manifest} : checkPolicy b m = .ok () ↔
  b.policy = policyOf m := by
 simp only [checkPolicy, guard_ok, not_not]
 constructor
 · rintro ⟨schema, aead, version, mode, sealed, -⟩
   cases policy : b.policy
   simp only [policy] at schema aead version mode sealed
   simp only [policyOf, schema, aead, version, mode, sealed]
 · intro same
   rw [same]
   exact ⟨rfl, rfl, rfl, rfl, rfl, trivial⟩

theorem check_ok_iff {json : Json} {b : Binding} {m : Manifest} {t : ChunkTable} :
  check json b m t = .ok () ↔
   b.policy = policyOf m ∧ manifestBindingDigest json m = .ok b.manifest ∧
    chunkTableBindingDigest json t = .ok b.chunks := by
 rw [check, then_ok, checkPolicy_ok_iff]
 simp only [bind_ok, guard_ok, not_not]
 constructor
 · rintro ⟨policy, digest, computed, same, digest', computed', same', -⟩
   exact ⟨policy, same ▸ computed, same' ▸ computed'⟩
 · rintro ⟨policy, computed, computed'⟩
   exact ⟨policy, _, computed, rfl, _, computed', rfl, trivial⟩

def privatePath : Str := lit "private.json.zst"

structure ChunkSecret where
 ps : Str
 pb : Int64
 deriving DecidableEq, Inhabited

structure PrivateEncryption where
 keyFingerprint : Str
 recipients : List Str
 deriving DecidableEq, Inhabited

structure PrivateData where
 schemaVersion : Int
 binding : Option Binding
 sources : List Str
 host : HostInfo
 totals : Totals
 encryption : PrivateEncryption
 chunks : List ChunkSecret
 deriving DecidableEq, Inhabited

/-- What `SplitPrivate` leaves of a row. -/
def publicRow (c : Chunk) : Chunk := { c with ps := [], pb := 0 }

def splitPrivate (m : Manifest) (t : ChunkTable) : Manifest × ChunkTable × Option PrivateData :=
 if m.encryption.enabled then
  ({ m with
      schemaVersion := schemaVersionPrivate
      sources := []
      host := default
      totals := default
      encryption := { m.encryption with keyFingerprint := [], recipients := [] }
      privateRef := some ⟨privatePath, [], true⟩ },
   ⟨schemaVersionPrivate, t.chunks.map publicRow⟩,
   some {
    schemaVersion := schemaVersionPrivate
    binding := none
    sources := m.sources
    host := m.host
    totals := m.totals
    encryption := ⟨m.encryption.keyFingerprint, m.encryption.recipients⟩
    chunks := t.chunks.map fun c => ⟨c.ps, c.pb⟩ })
 else (m, t, none)

structure Metadata where
 manifest : Manifest
 table : ChunkTable
 indexBlob : Bytes
 privateBlob : Option Bytes

/-- `encoding/json` and zstd, as `WritePrivate` uses them. -/
structure PrivateCodec where
 encode : PrivateData → Option Bytes
 compress : Bytes → Bytes

/-- A sealer under the backup key, with the nonce it draws where the mode is random. -/
structure KeyedSealer where
 dek : Bytes
 nonceKey : Bytes
 mode : NonceMode
 drawn : Bytes

def sealMetadata (ae : Aead) (s : KeyedSealer) (role : Role) (payload : Bytes) : Bytes :=
 sealBlob ae s.dek s.nonceKey s.mode s.drawn role 0 .zstd payload

inductive WritePrivateError
 | nilPrivate
 | noSealer
 | schema (cause : ReadError)
 | encode
 deriving DecidableEq

def writePrivate (codec : PrivateCodec) (ae : Aead) (p : Option PrivateData)
  (sealer : Option KeyedSealer) :
  Except WritePrivateError Bytes :=
 match p, sealer with
 | none, _ => .error .nilPrivate
 | some _, none => .error .noSealer
 | some p, some s =>
  match checkSchema p.schemaVersion with
  | .error e => .error (.schema e)
  | .ok () =>
   match codec.encode p with
   | none => .error .encode
   | some text => .ok (sealMetadata ae s .confidential (codec.compress text))

structure MetadataWriter where
 writeIndex : FileIndex → Except Str Bytes
 codec : PrivateCodec
 aead : Aead
 sealer : Option KeyedSealer
 json : Json

def MetadataWriter.writePrivate (w : MetadataWriter) (p : PrivateData) :
  Except WritePrivateError Bytes :=
 Private.writePrivate w.codec w.aead (some p) w.sealer

inductive MetadataError
 | writeIndex (cause : Str)
 | binding (cause : BindingError)
 | writePrivate (cause : WritePrivateError)
 deriving DecidableEq

/-- The common tail of `finalize` and `publish`: split, write the index, bind its digest into the
private blob, and put the digest of that blob into the manifest. -/
def assemble (w : MetadataWriter) (m : Manifest) (t : ChunkTable) (entries : List FileEntry) :
  Except MetadataError Metadata :=
 let (m, t, confidential) := splitPrivate m t
 match w.writeIndex ⟨m.schemaVersion, entries⟩ with
 | .error e => .error (.writeIndex e)
 | .ok indexBlob =>
  match confidential with
  | none => .ok ⟨m, t, indexBlob, none⟩
  | some confidential =>
   match newBinding w.json m t indexBlob with
   | .error e => .error (.binding e)
   | .ok binding =>
    match w.writePrivate { confidential with binding := some binding } with
    | .error e => .error (.writePrivate e)
    | .ok blob =>
     let ref := m.privateRef.map fun ref => { ref with storedSha256 := digestText blob }
     .ok ⟨{ m with privateRef := ref }, t, indexBlob, some blob⟩

theorem assemble_ok {w : MetadataWriter} {m : Manifest} {t : ChunkTable} {entries : List FileEntry}
  {md : Metadata} (result : assemble w m t entries = .ok md) :
  md.manifest.chunking = m.chunking ∧ md.manifest.layers = m.layers ∧
   (md.table.chunks = t.chunks ∨ md.table.chunks = t.chunks.map publicRow) := by
 unfold assemble at result
 rcases split : splitPrivate m t with ⟨m', t', p⟩
 have known : m'.chunking = m.chunking ∧ m'.layers = m.layers ∧
   (t'.chunks = t.chunks ∨ t'.chunks = t.chunks.map publicRow) := by
  unfold splitPrivate at split
  split at split
  · cases split
    exact ⟨rfl, rfl, .inr rfl⟩
  · cases split
    exact ⟨rfl, rfl, .inl rfl⟩
 simp only [split] at result
 cases indexed : w.writeIndex ⟨m'.schemaVersion, entries⟩ with
 | error e => simp [indexed] at result
 | ok indexBlob =>
  cases p with
  | none =>
   simp only [indexed] at result
   cases result
   exact known
  | some confidential =>
   simp only [indexed] at result
   cases bound : newBinding w.json m' t' indexBlob with
   | error e => simp [bound] at result
   | ok binding =>
    simp only [bound] at result
    split at result
    · cases result
    · cases result
      exact known

/-- The calls that make an encrypted private half succeed whatever it holds. -/
def Seals (w : MetadataWriter) : Prop :=
 (∀ m t blob, ∃ binding, newBinding w.json m t blob = .ok binding) ∧
  ∀ p, p.schemaVersion = schemaVersionPrivate → ∃ blob, w.writePrivate p = .ok blob

theorem assemble_cases (w : MetadataWriter) (m : Manifest) (t : ChunkTable)
  (entries : List FileEntry) :
  ((∃ blob, w.writeIndex ⟨(splitPrivate m t).1.schemaVersion, entries⟩ = .ok blob) →
    (m.encryption.enabled = true → Seals w) → ∃ md, assemble w m t entries = .ok md) ∧
   ∀ md, assemble w m t entries = .ok md →
    ∃ blob, w.writeIndex ⟨(splitPrivate m t).1.schemaVersion, entries⟩ = .ok blob := by
 have encrypted : ∀ p ∈ (splitPrivate m t).2.2, m.encryption.enabled = true ∧
   p.schemaVersion = schemaVersionPrivate := by
  unfold splitPrivate
  split
  · rintro p ⟨⟩
    exact ⟨‹_›, rfl⟩
  · rintro p ⟨⟩
 unfold assemble
 generalize splitPrivate m t = halves at encrypted ⊢
 obtain ⟨m', t', confidential⟩ := halves
 dsimp only at encrypted ⊢
 cases w.writeIndex ⟨m'.schemaVersion, entries⟩ with
 | error cause => simp
 | ok blob =>
  refine ⟨fun _ seals => ?_, fun _ _ => ⟨blob, rfl⟩⟩
  cases confidential with
  | none => exact ⟨_, rfl⟩
  | some p =>
   obtain ⟨enabled, schema⟩ := encrypted p rfl
   obtain ⟨binds, writes⟩ := seals enabled
   obtain ⟨binding, bound⟩ := binds m' t' blob
   obtain ⟨stored, written⟩ := writes { p with binding := some binding } schema
   simp only [bound, written]
   exact ⟨_, rfl⟩

/-- A writer whose packages leave everything as it is. -/
def plainWriter : MetadataWriter where
 writeIndex _ := .ok []
 codec := ⟨fun _ => some [], id⟩
 aead := ⟨fun _ _ text _ => text, fun _ _ text _ => some text⟩
 sealer := some ⟨[], [], .random, []⟩
 json := ⟨fun _ => some [], fun _ => some []⟩

theorem assemble_plainWriter (m : Manifest) (t : ChunkTable) (entries : List FileEntry) :
  ∃ md, assemble plainWriter m t entries = .ok md := by
 refine (assemble_cases plainWriter m t entries).1 ⟨[], rfl⟩ fun _ =>
  ⟨fun m t blob => ⟨_, rfl⟩, fun p schema => ?_⟩
 simp only [MetadataWriter.writePrivate, writePrivate, plainWriter, schema]
 exact ⟨_, rfl⟩

inductive MergeError
 | schema (got : Int)
 | length (described held : Nat)
 | digest (i : Nat)
 | negative (i : Nat)
 deriving DecidableEq

def mergeRows : Nat → List Chunk → List ChunkSecret → List Chunk × Except MergeError Unit
 | i, c :: rows, secret :: secrets =>
  if validDigest secret.ps = false then (c :: rows, .error (.digest i))
  else if secret.pb < 0 then (c :: rows, .error (.negative i))
  else
   let (rest, outcome) := mergeRows (i + 1) rows secrets
   ({ c with ps := secret.ps, pb := secret.pb } :: rest, outcome)
 | _, rows, _ => (rows, .ok ())

def mergeManifest (m : Manifest) (p : PrivateData) : Manifest :=
 { m with
   sources := p.sources
   host := p.host
   totals := p.totals
   encryption :=
    { m.encryption with
      keyFingerprint := p.encryption.keyFingerprint
      recipients := p.encryption.recipients } }

def mergePrivate (m : Manifest) (t : ChunkTable) (p : PrivateData) :
  Manifest × ChunkTable × Except MergeError Unit :=
 if p.schemaVersion ≠ schemaVersion ∧ p.schemaVersion ≠ schemaVersionPrivate then
  (m, t, .error (.schema p.schemaVersion))
 else if p.chunks.length ≠ t.chunks.length then
  (mergeManifest m p, t, .error (.length p.chunks.length t.chunks.length))
 else
  let (rows, outcome) := mergeRows 0 t.chunks p.chunks
  (mergeManifest m p, { t with chunks := rows }, outcome)

structure Decoders where
 private_ : Bytes → Except Str PrivateData
 index : Bytes → Except Str FileIndex

inductive ReadSealedError
 | noOpener
 | needsKey
 | reading (cause : LimitError Str)
 | notEnvelope
 | opening (cause : OpenError)
 | decoding (cause : Str)
 | schema (cause : ReadError)
 | entries (cause : EntryError)
 deriving DecidableEq

def readCapped (what : Str) (data : Bytes) : Except (LimitError Str) Bytes :=
 (limitMetadata Script.reader 0 what).readAll ⟨Script.ofList data, 0⟩

def readPrivate (ae : Aead) (decoders : Decoders) (data : Bytes) (opener : Option Opener) :
  Except ReadSealedError PrivateData :=
 match opener with
 | none => .error .noOpener
 | some opener =>
  if opener.requiresAuthentication = false then .error .needsKey
  else
   match readCapped (lit "the confidential metadata") data with
   | .error e => .error (.reading e)
   | .ok raw =>
    if isEnvelope raw = false then .error .notEnvelope
    else
     match opener.open ae .confidential 0 raw with
     | .error e => .error (.opening e)
     | .ok (payload, _) =>
      match decoders.private_ payload with
      | .error e => .error (.decoding e)
      | .ok p =>
       match checkSchema p.schemaVersion with
       | .error e => .error (.schema e)
       | .ok () => .ok p

def indexPayload (ae : Aead) (opener : Opener) (raw : Bytes) : Except ReadSealedError Bytes :=
 if opener.requiresAuthentication ∧ isEnvelope raw = false then .error .notEnvelope
 else if isEnvelope raw then
  match opener.open ae .index 0 raw with
  | .error e => .error (.opening e)
  | .ok (payload, _) => .ok payload
 else .ok raw

def readIndex (ae : Aead) (decoders : Decoders) (data : Bytes) (opener : Option Opener) :
  Except ReadSealedError FileIndex :=
 match opener with
 | none => .error .noOpener
 | some opener =>
  match readCapped (lit "the file index") data with
  | .error e => .error (.reading e)
  | .ok raw =>
   match indexPayload ae opener raw with
   | .error e => .error e
   | .ok payload =>
    match decoders.index payload with
    | .error e => .error (.decoding e)
    | .ok idx =>
     match checkSchema idx.schemaVersion with
     | .error e => .error (.schema e)
     | .ok () =>
      match validateEntries idx.entries with
      | .error e => .error (.entries e)
      | .ok () => .ok idx

theorem readCapped_ok {what : Str} {data raw : Bytes} (result : readCapped what data = .ok raw) :
  raw = data := by
 unfold readCapped at result
 rw [Lib.Reading.Reader.readAll_eq] at result
 split at result
 · rename_i fine
   obtain ⟨whole, -⟩ := Limiter.limitBytes_whole _ _ _ fine
   cases result
   rw [limitMetadata, whole]
   exact @Script.content_ofList UInt8 Str data
 · cases result

theorem readPrivate_ok {ae : Aead} {decoders : Decoders} {data : Bytes} {opener : Option Opener}
  {p : PrivateData} (result : readPrivate ae decoders data opener = .ok p) :
  ∃ dek payload codec, opener = some (.keyed dek) ∧
   (Opener.keyed dek).open ae .confidential 0 data = .ok (payload, codec) ∧
   decoders.private_ payload = .ok p := by
 unfold readPrivate at result
 cases opener with
 | none => cases result
 | some o =>
  cases o with
  | clear => cases result
  | keyed dek =>
   simp only [Opener.requiresAuthentication, Bool.true_eq_false, if_false] at result
   cases capped : readCapped (lit "the confidential metadata") data with
   | error e => simp [capped] at result
   | ok raw =>
    have same := readCapped_ok capped
    simp only [capped] at result
    split at result
    · cases result
    · cases opened : (Opener.keyed dek).open ae .confidential 0 raw with
      | error e => simp [opened] at result
      | ok pair =>
       obtain ⟨payload, codec⟩ := pair
       simp only [opened] at result
       cases decoded : decoders.private_ payload with
       | error e => simp [decoded] at result
       | ok q =>
        simp only [decoded] at result
        split at result
        · cases result
        · cases result
          exact ⟨dek, payload, codec, rfl, same ▸ opened, decoded⟩

end BackImage.Index.Private
