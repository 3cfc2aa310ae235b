/- source: pkg/recovery/recovery.go
  digest: A chunk is read, opened and decompressed twice, and only then written out. -/

import BackImage.Recovery.Unlock

namespace BackImage.Recovery.StreamTar

open Crypt.Envelope Go.Sha256 Go.Text Index.Limiter Index.Limits Index.Model Unlock
open Lib.Reading (Script End Reader)

inductive ChunkError
 | outOfRange (i : Nat)
 | fetch (i : Nat) (cause : Str)
 | storedSize (i got : Nat) (want : Int64)
 | seek (i : Nat) (cause : End Str)
 | overrun (i : Nat) (size offset held : Int64)
 | truncated (i : Nat) (cause : End Str)
 | wrongPassphrase
 | authentication (i : Nat) (cause : OpenError)
 | unknownCodec (name : Str)
 | decompressor (i : Nat) (cause : Str)
 | decompress (i : Nat) (cause : LimitError Str)
 | reading (i : Nat) (cause : LimitError Str)
 | close (i : Nat) (cause : Str)
 | plainSize (i got : Nat) (want : Int64)
 | plainDigest (i : Nat)
 | rewritten (i got want : Nat)
 | cancelled (cause : Str)
 deriving DecidableEq

def skipTo (f : OpenFile) (offset : Int64) : Except (End Str) (Script UInt8 Str) :=
 if offset = 0 then .ok f.body
 else
  match f.seek offset with
  | some body => .ok body
  | none => if offset < 0 then .ok f.body else f.body.discard offset.toNatClampNeg

def storedChunkAt (b : Backup) (i : Nat) (c : Chunk) : Except ChunkError Bytes :=
 match b.backend with
 | .blobs s =>
  match s.blob i with
  | .error e => .error (.fetch i e)
  | .ok buf =>
   if (buf.length : Int) ≠ c.sb.toInt then .error (.storedSize i buf.length c.sb) else .ok buf
 | .source s =>
  match s.openFile c.p with
  | .error e => .error (.fetch i e)
  | .ok f =>
   let offset := b.layout.offsets.getD i 0
   match skipTo f offset with
   | .error e => .error (.seek i e)
   | .ok body =>
    -- `fitsInBlob`, when the file can say how large it is
    match f.size with
    | some held =>
     if held < offset + c.sb then .error (.overrun i c.sb offset held)
     else
      match Script.reader.fill c.sb.toNatClampNeg body with
      | (buf, none) => .ok buf
      | (_, some e) => .error (.truncated i e)
    | none =>
     match Script.reader.fill c.sb.toNatClampNeg body with
     | (buf, none) => .ok buf
     | (_, some e) => .error (.truncated i e)

def storedChunk (b : Backup) (i : Nat) : Except ChunkError Bytes :=
 match b.table.chunks[i]? with
 | none => .error (.outOfRange i)
 | some c => storedChunkAt b i c

/-- `compress.Get`. -/
def codecByName (name : Str) : Option Codec :=
 if name = lit "store" then some .store
 else if name = lit "gzip" then some .gzip
 else if name = lit "zstd" then some .zstd
 else if name = lit "xz" then some .xz
 else if name = lit "lz4" then some .lz4
 else none

def plainChunkPayload (pk : Packages) (b : Backup) (i : Nat) : Except ChunkError (Bytes × Codec) :=
 if b.manifest.encryption.enabled ∧ b.key = none then .error .wrongPassphrase
 else
  match storedChunk b i with
  | .error e => .error e
  | .ok stored =>
   if b.manifest.encryption.enabled then
    match b.opener with
    | none => .error .wrongPassphrase
    | some opener =>
     match opener.open pk.aead .data (UInt32.ofNat i) stored with
     | .error e => .error (.authentication i e)
     | .ok (payload, codec) => .ok (payload, codec)
   else
    match codecByName b.manifest.archive.compression with
    | none => .error (.unknownCodec b.manifest.archive.compression)
    | some codec => .ok (stored, codec)

def plainCap (b : Backup) (i : Nat) : Int64 :=
 match b.table.chunks[i]? with
 | some c => if 0 < c.pb then c.pb else maxPlainChunkBytes b.manifest
 | none => maxPlainChunkBytes b.manifest

def plaintextOf (i : Nat) : Str := lit "the plaintext of chunk " ++ decimal i

def plainReader (b : Backup) (i : Nat) :
  Reader (Limited (Script UInt8 Str)) UInt8 (LimitError Str) :=
 limitBytes Script.reader (plainCap b i) (plaintextOf i)

def copyPass (pk : Packages) (b : Backup) (bufs : Nat → Nat) (payload : Bytes) (codec : Codec)
  (i : Nat) : Bytes × Except ChunkError Nat :=
 match pk.newReader codec payload with
 | .error e => ([], .error (.decompressor i e))
 | .ok d =>
  match (plainReader b i).copy bufs ⟨d.body, 0⟩ with
  | (out, some e) => (out, .error (.decompress i e))
  | (out, none) =>
   match d.closeErr with
   | some e => (out, .error (.close i e))
   | none => (out, .ok out.length)

def digestMatches (want : Str) (got : Bytes) : Bool :=
 trimPrefix want (lit "sha256:") = hexEncode got

def mustVerify (b : Backup) (verify : Bool) : Bool := verify || b.manifest.encryption.enabled

structure Schedule where
 cancelled : Nat → Option Str
 bufs : Nat → Nat → Nat → Nat
 room : ∀ i pass k, 0 < bufs i pass k

def streamOneChunk (pk : Packages) (run : Schedule) (b : Backup) (verify : Bool) (i : Nat)
  (c : Chunk) : Bytes × Except ChunkError Unit :=
 match plainChunkPayload pk b i with
 | .error e => ([], .error e)
 | .ok (payload, codec) =>
  if verify = false then
   match copyPass pk b (run.bufs i 0) payload codec i with
   | (out, .error e) => (out, .error e)
   | (out, .ok n) =>
    if (n : Int) ≠ c.pb.toInt then (out, .error (.plainSize i n c.pb)) else (out, .ok ())
  else
   -- the first pass feeds the digest only
   match copyPass pk b (run.bufs i 0) payload codec i with
   | (_, .error e) => ([], .error e)
   | (hashed, .ok n) =>
    if (n : Int) ≠ c.pb.toInt then ([], .error (.plainSize i n c.pb))
    else if digestMatches c.ps (sum256 hashed) = false then ([], .error (.plainDigest i))
    else
     match copyPass pk b (run.bufs i 1) payload codec i with
     | (out, .error e) => (out, .error e)
     | (out, .ok written) =>
      if written ≠ n then (out, .error (.rewritten i written n)) else (out, .ok ())

def streamFrom (pk : Packages) (run : Schedule) (b : Backup) (verify : Bool) :
  Nat → List Chunk → Bytes × Except ChunkError Unit
 | _, [] => ([], .ok ())
 | i, c :: rest =>
  match run.cancelled i with
  | some e => ([], .error (.cancelled e))
  | none =>
   match streamOneChunk pk run b verify i c with
   | (out, .error e) => (out, .error e)
   | (out, .ok ()) =>
    let (more, outcome) := streamFrom pk run b verify (i + 1) rest
    (out ++ more, outcome)

def streamTar (pk : Packages) (run : Schedule) (b : Backup) (verify : Bool) :
  Bytes × Except ChunkError Unit :=
 streamFrom pk run b (mustVerify b verify) 0 b.table.chunks

section Passes

variable {pk : Packages} {run : Schedule} {b : Backup}

theorem copyPass_eq {bufs : Nat → Nat} (room : ∀ k, 0 < bufs k) (payload : Bytes) (codec : Codec)
  (i : Nat) : copyPass pk b bufs payload codec i = copyPass pk b (fun _ => 1) payload codec i := by
 unfold copyPass
 split
 · rfl
 · rw [Reader.copy_eq _ room, Reader.copy_eq _ (fun _ => Nat.one_pos)]

theorem copyPass_ok {bufs : Nat → Nat} {payload out : Bytes} {codec : Codec} {i n : Nat}
  (room : ∀ k, 0 < bufs k) (result : copyPass pk b bufs payload codec i = (out, .ok n)) :
  n = out.length ∧ ∃ d, pk.newReader codec payload = .ok d ∧ d.body.content = out := by
 unfold copyPass at result
 cases opened : pk.newReader codec payload with
 | error e => simp [opened] at result
 | ok d =>
  simp only [opened] at result
  rw [Reader.copy_eq _ room] at result
  cases ends : ((plainReader b i).final
    ⟨d.body, 0⟩).fault with
  | some e => simp [ends] at result
  | none =>
   obtain ⟨whole, -⟩ := Index.Limiter.limitBytes_whole _ _ _ ends
   simp only [ends] at result
   split at result
   · cases result
   · cases result
     exact ⟨rfl, d, rfl, whole.symm⟩

theorem plainChunkPayload_ok {i : Nat} {payload : Bytes} {codec : Codec}
  (enabled : b.manifest.encryption.enabled = true)
  (result : plainChunkPayload pk b i = .ok (payload, codec)) :
  ∃ km stored, b.key = some km ∧ storedChunk b i = .ok stored ∧
   (Opener.keyed km.dek).open pk.aead .data (UInt32.ofNat i) stored = .ok (payload, codec) := by
 unfold plainChunkPayload at result
 cases held : b.key with
 | none => simp [enabled, held] at result
 | some km =>
  have opener := b.keyed km held
  rw [if_neg (by simp [held])] at result
  cases fetched : storedChunk b i with
  | error e => simp [fetched] at result
  | ok stored =>
   simp only [fetched, enabled, opener, if_true] at result
   cases opened : (Opener.keyed km.dek).open pk.aead .data (UInt32.ofNat i) stored with
   | error e => simp [opened] at result
   | ok pair =>
    simp only [opened] at result
    have same : pair = (payload, codec) := Except.ok.inj result
    exact ⟨km, stored, rfl, rfl, same ▸ opened⟩

end Passes

/-- The bytes are the plaintext that the table records for the chunk and, when the backup is
encrypted, what its authenticated blob decompresses to. -/
structure VerifiedChunk (pk : Packages) (b : Backup) (i : Nat) (c : Chunk) (p : Bytes) : Prop where
 size : (p.length : Int) = c.pb.toInt
 digest : digestMatches c.ps (sum256 p) = true
 authentic : b.manifest.encryption.enabled = true →
  ∃ km stored payload codec d, b.key = some km ∧ storedChunk b i = .ok stored ∧
   (Opener.keyed km.dek).open pk.aead .data (UInt32.ofNat i) stored = .ok (payload, codec) ∧
   pk.newReader codec payload = .ok d ∧ d.body.content = p

section Verified

variable {pk : Packages} {run : Schedule} {b : Backup}

variable {out : Bytes} {outcome : Except ChunkError Unit}

theorem streamOneChunk_verified {i : Nat} {c : Chunk}
  (result : streamOneChunk pk run b true i c = (out, outcome)) :
  outcome = .ok () ∧ VerifiedChunk pk b i c out ∨ (∃ e, outcome = .error e) ∧ out = [] := by
 unfold streamOneChunk at result
 cases fetched : plainChunkPayload pk b i with
 | error e =>
  simp only [fetched] at result
  cases result
  exact .inr ⟨⟨e, rfl⟩, rfl⟩
 | ok pair =>
  obtain ⟨payload, codec⟩ := pair
  simp only [fetched, Bool.true_eq_false, if_false] at result
  rw [copyPass_eq (run.room i 0), copyPass_eq (run.room i 1)] at result
  cases pass : copyPass pk b (fun _ => 1) payload codec i with
  | mk hashed first =>
   simp only [pass] at result
   cases first with
   | error e =>
    cases result
    exact .inr ⟨⟨e, rfl⟩, rfl⟩
   | ok n =>
    obtain ⟨count, d, opened, content⟩ := copyPass_ok (fun _ => Nat.one_pos) pass
    simp only [ne_eq, not_true_eq_false, if_false] at result
    split at result
    · cases result
      exact .inr ⟨⟨_, rfl⟩, rfl⟩
    · rename_i size
      split at result
      · cases result
        exact .inr ⟨⟨_, rfl⟩, rfl⟩
      · rename_i digest
        cases result
        refine .inl ⟨rfl, ?_, by simpa using digest, ?_⟩
        · rw [← count]
          simpa using size
        · intro enabled
          obtain ⟨km, stored, held, read, authentic⟩ := plainChunkPayload_ok enabled fetched
          exact ⟨km, stored, payload, codec, d, held, read, authentic, opened, content⟩

theorem streamFrom_verified {i : Nat} {chunks : List Chunk}
  (result : streamFrom pk run b true i chunks = (out, outcome)) :
  ∃ ps : List Bytes, out = ps.flatten ∧ ps.length ≤ chunks.length ∧
   (∀ j p c, ps[j]? = some p → chunks[j]? = some c → VerifiedChunk pk b (i + j) c p) ∧
   (ps.length = chunks.length ↔ outcome = .ok ()) := by
 induction chunks generalizing i out outcome with
 | nil =>
  cases result
  exact ⟨[], rfl, Nat.le_refl _, by simp, by simp⟩
 | cons c rest ih =>
  unfold streamFrom at result
  cases alive : run.cancelled i with
  | some e =>
   simp only [alive] at result
   cases result
   exact ⟨[], rfl, Nat.zero_le _, by simp, by simp⟩
  | none =>
   simp only [alive] at result
   cases chunk : streamOneChunk pk run b true i c with
   | mk piece first =>
    rcases streamOneChunk_verified chunk with ⟨rfl, verified⟩ | ⟨⟨e, rfl⟩, rfl⟩
    · simp only [chunk] at result
      cases later : streamFrom pk run b true (i + 1) rest with
      | mk more final =>
       simp only [later] at result
       cases result
       obtain ⟨ps, whole, short, each, complete⟩ := ih later
       refine ⟨piece :: ps, by rw [whole]; rfl, by simpa using short, ?_, ?_⟩
       · intro j p c' at_p at_c
         cases j with
         | zero =>
          cases at_p
          cases at_c
          exact verified
         | succ j =>
          have later_chunk := each j p c' (by simpa using at_p) (by simpa using at_c)
          rwa [show i + 1 + j = i + (j + 1) by omega] at later_chunk
       · rw [← complete]
         simp
    · simp only [chunk] at result
      cases result
      exact ⟨[], rfl, Nat.zero_le _, by simp, by simp⟩

/-- `StreamTar` of an encrypted backup, or of any backup it is asked to verify, hands out the
verified plaintexts of the first chunks and nothing else, all of them exactly when it succeeds. -/
theorem streamTar_verified {verify : Bool}
  (checked : b.manifest.encryption.enabled = true ∨ verify = true)
  (result : streamTar pk run b verify = (out, outcome)) :
  ∃ ps : List Bytes, out = ps.flatten ∧ ps.length ≤ b.table.chunks.length ∧
   (∀ j p c, ps[j]? = some p → b.table.chunks[j]? = some c → VerifiedChunk pk b j c p) ∧
   (ps.length = b.table.chunks.length ↔ outcome = .ok ()) := by
 have must : mustVerify b verify = true := by
  unfold mustVerify
  rcases checked with enabled | asked
  · rw [enabled, Bool.or_true]
  · rw [asked, Bool.true_or]
 rw [streamTar, must] at result
 obtain ⟨ps, whole, short, each, complete⟩ := streamFrom_verified result
 refine ⟨ps, whole, short, ?_, complete⟩
 intro j p c at_p at_c
 have verified := each j p c at_p at_c
 rwa [Nat.zero_add] at verified

end Verified

def storePackages : Packages where
 aead := ⟨fun _ _ payload _ => payload, fun _ _ ciphertext _ => some ciphertext⟩
 age := ⟨Unit, fun _ => .ok none, fun _ _ => none, fun _ => none⟩
 json := ⟨fun _ => none, fun _ => none⟩
 decoders := ⟨fun _ => .error [], fun _ => .error []⟩
 newReader _ payload := .ok ⟨Script.ofList payload, none⟩

def oneKey : Crypt.Envelope.KeyMaterial :=
 ⟨2, 3, lit "random", lit "never", List.replicate 32 1, List.replicate 32 2⟩

def sealedChunk (i : Nat) (plain : Bytes) : Bytes :=
 Crypt.Envelope.sealBlob storePackages.aead oneKey.dek oneKey.nonceKey .random
  (List.replicate 12 0) .data (UInt32.ofNat i) .store plain

def encryptedManifest : Manifest :=
 { (default : Manifest) with encryption := { (default : EncryptionInfo) with enabled := true } }

def sealedBackup (plains : List Bytes) (blob : Nat → Bytes) : Backup :=
 (Backup.fresh (.blobs ⟨fun _ => .error [], .error [], .error [], fun i => .ok (blob i)⟩)
  encryptedManifest
  ⟨1, plains.zipIdx.map fun (plain, i) => ⟨i, lit "blob", Go.Sha256.digestText plain, [],
   Int64.ofNat plain.length, Int64.ofNat (24 + plain.length)⟩⟩).install rfl oneKey

/-- The last of the three blobs is not the one whose digest is listed. -/
def tamperedBackup : Backup :=
 sealedBackup [lit "ta", lit "r", lit "!"] fun i =>
  sealedChunk i ([lit "ta", lit "r", lit "?"].getD i [])

def calmSchedule : Schedule := ⟨fun _ => none, fun _ _ _ => 2, fun _ _ _ => Nat.two_pos⟩

theorem streamTar_two_of_three : ∃ ps : List Bytes, ps.flatten = lit "tar" ∧ ps.length < 3 ∧
   ∀ j p c, ps[j]? = some p → tamperedBackup.table.chunks[j]? = some c →
    VerifiedChunk storePackages tamperedBackup j c p := by
 have ran : streamTar storePackages calmSchedule tamperedBackup false =
   (lit "tar", .error (.plainDigest 2)) := by decide +kernel
 obtain ⟨ps, whole, short, each, complete⟩ := streamTar_verified (.inl rfl) ran
 have some_missing : ps.length ≠ 3 := fun all => nomatch complete.mp all
 exact ⟨ps, whole.symm, lt_of_le_of_ne short some_missing, each⟩

end BackImage.Recovery.StreamTar
