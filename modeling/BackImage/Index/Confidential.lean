/- source: pkg/index/private.go, pkg/index/binding.go
  digest: What splitting hides, what merging restores, and what a binding pins down. -/

import BackImage.Index.Private
import Mathlib.Data.List.Forall2

namespace BackImage.Index.Confidential

open Go.Sha256 Go.Text Private Model Lib.Sequence

def withConfidentialOf (m other : Manifest) : Manifest :=
 { m with
   sources := other.sources
   host := other.host
   totals := other.totals
   encryption :=
    { m.encryption with
      keyFingerprint := other.encryption.keyFingerprint
      recipients := other.encryption.recipients } }

def withPlainOf (c other : Chunk) : Chunk := { c with ps := other.ps, pb := other.pb }

def SameManifest (m m' : Manifest) : Prop := m' = withConfidentialOf m m'

/-- The manifests agree outside the confidential fields and the reference to the private blob. -/
def SamePublic (m m' : Manifest) : Prop :=
 m' = { withConfidentialOf m m' with privateRef := m'.privateRef }

def SameTable (t t' : ChunkTable) : Prop :=
 t.schemaVersion = t'.schemaVersion ∧
  List.Forall₂ (fun c c' => c' = withPlainOf c c') t.chunks t'.chunks

theorem publicRow_eq_iff {c c' : Chunk} : publicRow c = publicRow c' ↔ c' = withPlainOf c c' := by
 obtain ⟨i, p, ps, ss, pb, sb⟩ := c
 obtain ⟨i', p', ps', ss', pb', sb'⟩ := c'
 simp only [publicRow, withPlainOf, Chunk.mk.injEq, true_and]
 constructor
 · rintro ⟨rfl, rfl, rfl, rfl⟩
   exact ⟨rfl, rfl, rfl, rfl⟩
 · rintro ⟨rfl, rfl, rfl, rfl⟩
   exact ⟨rfl, rfl, rfl, rfl⟩

theorem publicRows_eq_iff {rows rows' : List Chunk} : rows.map publicRow = rows'.map publicRow ↔
   List.Forall₂ (fun c c' => c' = withPlainOf c c') rows rows' := by
 rw [← List.forall₂_eq_eq_eq, List.forall₂_map_left_iff, List.forall₂_map_right_iff]
 simp only [publicRow_eq_iff]

variable {m m' : Manifest} {t t' : ChunkTable}

theorem splitPrivate_public (enabled : m.encryption.enabled = true)
  (manifests : SameManifest m m') (tables : SameTable t t') :
  (splitPrivate m t).1 = (splitPrivate m' t').1 ∧
   (splitPrivate m t).2.1 = (splitPrivate m' t').2.1 := by
 have enabled' : m'.encryption.enabled = true := by
  rw [manifests]
  exact enabled
 have rows := publicRows_eq_iff.mpr tables.2
 simp only [splitPrivate, enabled, enabled', if_true]
 refine ⟨?_, by rw [rows]⟩
 rw [manifests]
 rfl

/-- The rows whose plaintext fields `MergePrivate` takes. -/
def MergeableRows (rows : List Chunk) : Prop :=
 ∀ c ∈ rows, validDigest c.ps = true ∧ 0 ≤ c.pb

theorem mergeRows_split {rows : List Chunk} (mergeable : MergeableRows rows) (i : Nat) :
  mergeRows i (rows.map publicRow) (rows.map fun c => ⟨c.ps, c.pb⟩) = (rows, .ok ()) := by
 induction rows generalizing i with
 | nil => rfl
 | cons c rows ih =>
  obtain ⟨digest, size⟩ := mergeable c List.mem_cons_self
  have rest : MergeableRows rows := fun d inside => mergeable d (List.mem_cons_of_mem c inside)
  have valid : ¬ validDigest c.ps = false := by
   rw [digest]
   decide
  simp only [List.map_cons, mergeRows]
  rw [if_neg valid, if_neg (Int64.not_lt.mpr size), ih rest]
  rfl

theorem mergePrivate_split (enabled : m.encryption.enabled = true)
  (mergeable : MergeableRows t.chunks) : ∃ p, (splitPrivate m t).2.2 = some p ∧
   mergePrivate (splitPrivate m t).1 (splitPrivate m t).2.1 p =
    ({ m with
        schemaVersion := schemaVersionPrivate
        privateRef := some ⟨privatePath, [], true⟩ },
     ⟨schemaVersionPrivate, t.chunks⟩, .ok ()) := by
 rw [splitPrivate, if_pos enabled]
 refine ⟨_, rfl, ?_⟩
 have schema : ¬ (schemaVersionPrivate ≠ schemaVersion ∧
   schemaVersionPrivate ≠ schemaVersionPrivate) := by
  decide
 have lengths : ¬ (t.chunks.map fun c => (⟨c.ps, c.pb⟩ : ChunkSecret)).length ≠
   (t.chunks.map publicRow).length := by
  simp
 simp only [mergePrivate, if_neg schema, if_neg lengths, mergeRows_split mergeable]
 rfl

theorem canonical_mergeRows (i : Nat) (rows : List Chunk) (secrets : List ChunkSecret) :
  ((mergeRows i rows secrets).1.map fun c => { c with ps := [], pb := 0 }) =
   rows.map fun c => { c with ps := [], pb := 0 } := by
 induction rows generalizing i secrets with
 | nil => simp [mergeRows]
 | cons c rows ih =>
  cases secrets with
  | nil => simp [mergeRows]
  | cons secret secrets =>
   rw [mergeRows]
   split
   · rfl
   · split
     · rfl
     · simp only [List.map_cons, ih]

theorem check_merged (json : Json) (binding : Binding) (m : Manifest) (t : ChunkTable)
  (p : PrivateData) :
  check json binding (mergePrivate m t p).1 (mergePrivate m t p).2.1 = check json binding m t := by
 have tables : canonicalTable { t with chunks := (mergeRows 0 t.chunks p.chunks).1 } =
   canonicalTable t := by
  unfold canonicalTable
  rw [canonical_mergeRows]
 have digests : chunkTableBindingDigest json
  { t with chunks := (mergeRows 0 t.chunks p.chunks).1 } =
   chunkTableBindingDigest json t := by
  unfold chunkTableBindingDigest
  rw [tables]
 unfold mergePrivate
 split
 · rfl
 · split
   · rfl
   · change check json binding (mergeManifest m p) _ = _
     unfold check
     rw [digests]
     rfl

theorem canonicalManifest_eq_iff : canonicalManifest m = canonicalManifest m' ↔
  SamePublic m m' := by
 obtain ⟨schema, tool, createdAt, sources, host, totals, archive,
  ⟨enabled, kdf, aead, version, mode, fingerprint, recipients⟩, chunking, layers, index, ref⟩ := m
 obtain ⟨schema', tool', createdAt', sources', host', totals', archive',
  ⟨enabled', kdf', aead', version', mode', fingerprint', recipients'⟩, chunking', layers', index',
  ref'⟩ := m'
 simp only [canonicalManifest, SamePublic, withConfidentialOf, Manifest.mk.injEq,
  EncryptionInfo.mk.injEq, true_and, and_true]
 constructor
 · rintro ⟨rfl, rfl, rfl, rfl, ⟨rfl, rfl, rfl, rfl, rfl⟩, rfl, rfl, rfl⟩
   simp
 · rintro ⟨rfl, rfl, rfl, rfl, ⟨rfl, rfl, rfl, rfl, rfl⟩, rfl, rfl, rfl⟩
   simp

theorem canonicalTable_eq_iff : canonicalTable t = canonicalTable t' ↔ SameTable t t' := by
 simp only [canonicalTable, ChunkTable.mk.injEq, SameTable]
 exact and_congr_right fun _ => publicRows_eq_iff

structure JsonCodec extends Json where
 encodeManifest : Manifest → Option Bytes
 encodeTable : ChunkTable → Option Bytes
 decodeManifest : Bytes → Option Manifest
 decodeTable : Bytes → Option ChunkTable

/-- Encoding is injective, and a file that is read back encodes as it did. -/
structure JsonCodec.Faithful (codec : JsonCodec) : Prop where
 manifest_injective : ∀ {m m' encoded}, codec.marshalManifest m = some encoded →
  codec.marshalManifest m' = some encoded → m = m'
 table_injective : ∀ {t t' encoded}, codec.marshalTable t = some encoded →
  codec.marshalTable t' = some encoded → t = t'
 manifest_stable : ∀ {m m' file}, codec.encodeManifest m = some file →
  codec.decodeManifest file = some m' →
  ∃ encoded, codec.marshalManifest m = some encoded ∧ codec.marshalManifest m' = some encoded
 table_stable : ∀ {t t' file}, codec.encodeTable t = some file →
  codec.decodeTable file = some t' →
  ∃ encoded, codec.marshalTable t = some encoded ∧ codec.marshalTable t' = some encoded

def boundTexts (json : Json) (m : Manifest) (t : ChunkTable) (indexBlob : Bytes) : Set Bytes :=
 {text | json.marshalManifest (canonicalManifest m) = some text ∨
   json.marshalTable (canonicalTable t) = some text ∨ text = indexBlob}

theorem digestText_injOn {texts : Set Bytes} (free : CollisionFree texts) {a b : Bytes}
  (inside : a ∈ texts) (inside' : b ∈ texts) (same : digestText a = digestText b) : a = b := by
 have hexes := hexEncode_injective (List.append_cancel_left same)
 exact free inside inside' hexes

variable {json : Json} {indexBlob : Bytes} {b : Binding}

theorem newBinding_ok (bound : newBinding json m t indexBlob = .ok b) :
  manifestBindingDigest json m = .ok b.manifest ∧ chunkTableBindingDigest json t = .ok b.chunks ∧
   b.index = digestText indexBlob ∧ b.policy = policyOf m := by
 obtain ⟨manifest, hashed, rest⟩ := bind_ok.mp bound
 obtain ⟨chunks, hashed', made⟩ := bind_ok.mp rest
 cases made
 exact ⟨hashed, hashed', rfl, rfl⟩

theorem manifestBindingDigest_ok {digest : Str}
  (hashed : manifestBindingDigest json m = .ok digest) :
  ∃ text, json.marshalManifest (canonicalManifest m) = some text ∧ digestText text = digest := by
 unfold manifestBindingDigest at hashed
 split at hashed
 · cases hashed
 · rename_i text encoded
   cases hashed
   exact ⟨text, encoded, rfl⟩

theorem chunkTableBindingDigest_ok {digest : Str}
  (hashed : chunkTableBindingDigest json t = .ok digest) :
  ∃ text, json.marshalTable (canonicalTable t) = some text ∧ digestText text = digest := by
 unfold chunkTableBindingDigest at hashed
 split at hashed
 · cases hashed
 · rename_i text encoded
   cases hashed
   exact ⟨text, encoded, rfl⟩

theorem policyOf_samePublic (same : SamePublic m m') : policyOf m' = policyOf m := by
 rw [same]
 rfl

theorem check_samePublic (bound : newBinding json m t indexBlob = .ok b)
  (manifests : SamePublic m m') (tables : SameTable t t') : check json b m' t' = .ok () := by
 obtain ⟨hashed, hashed', -, policy⟩ := newBinding_ok bound
 apply check_ok_iff.mpr
 refine ⟨policy.trans (policyOf_samePublic manifests).symm, ?_, ?_⟩
 · rw [manifestBindingDigest, ← canonicalManifest_eq_iff.mpr manifests]
   exact hashed
 · rw [chunkTableBindingDigest, ← canonicalTable_eq_iff.mpr tables]
   exact hashed'

variable {codec : JsonCodec}

theorem samePublic_of_check (faithful : codec.Faithful) {indexBlob' : Bytes}
  (bound : newBinding codec.toJson m t indexBlob = .ok b) (free : CollisionFree
   (boundTexts codec.toJson m t indexBlob ∪ boundTexts codec.toJson m' t' indexBlob'))
  (accepted : check codec.toJson b m' t' = .ok ()) : SamePublic m m' ∧ SameTable t t' := by
 obtain ⟨hashed, hashed', -, -⟩ := newBinding_ok bound
 obtain ⟨-, seen, seen'⟩ := check_ok_iff.mp accepted
 constructor
 · obtain ⟨text, encoded, digest⟩ := manifestBindingDigest_ok hashed
   obtain ⟨text', encoded', digest'⟩ := manifestBindingDigest_ok seen
   have same : text = text' :=
    digestText_injOn free (.inl (.inl encoded)) (.inr (.inl encoded')) (digest.trans digest'.symm)
   rw [← same] at encoded'
   exact canonicalManifest_eq_iff.mp (faithful.manifest_injective encoded encoded')
 · obtain ⟨text, encoded, digest⟩ := chunkTableBindingDigest_ok hashed'
   obtain ⟨text', encoded', digest'⟩ := chunkTableBindingDigest_ok seen'
   have same : text = text' :=
    digestText_injOn free (.inl (.inr (.inl encoded))) (.inr (.inr (.inl encoded')))
     (digest.trans digest'.symm)
   rw [← same] at encoded'
   exact canonicalTable_eq_iff.mp (faithful.table_injective encoded encoded')

theorem checkIndexBlob_iff (bound : newBinding json m t indexBlob = .ok b) {texts : Set Bytes}
  (free : CollisionFree texts) (inside : indexBlob ∈ texts) {blob : Bytes}
  (inside' : blob ∈ texts) :
  checkIndexBlob (some b) blob = .ok () ↔ blob = indexBlob := by
 obtain ⟨-, -, index, -⟩ := newBinding_ok bound
 have named : ¬ digestText indexBlob = [] := List.cons_ne_nil _ _
 simp only [checkIndexBlob, index, if_neg named, guard_ok, not_not, and_true, blobBindingDigest]
 constructor
 · intro same
   exact digestText_injOn free inside' inside same
 · rintro rfl
   rfl

variable {file : Bytes}

theorem readManifest_ok {decode : Bytes → Option Manifest}
  (read : readManifest decode file = .ok m) : decode file = some m := by
 unfold readManifest at read
 split at read
 · cases read
 rename_i m' decoded
 have kept : m' = m := by
  simp only [checkManifest, then_ok, throw_ok] at read
  obtain ⟨-, -, -, -, -, -, -, -, -, -, same⟩ := read
  exact Except.ok.inj same
 rw [decoded, kept]

theorem readChunkTable_ok {decode : Bytes → Option ChunkTable}
  (read : readChunkTable decode file = .ok t) : decode file = some t := by
 unfold readChunkTable at read
 split at read
 · cases read
 rename_i t' decoded
 obtain ⟨-, rest⟩ := then_ok.mp read
 obtain ⟨-, same⟩ := then_ok.mp rest
 cases same
 exact decoded

theorem readManifest_written (faithful : codec.Faithful)
  (written : codec.encodeManifest m = some file)
  (read : readManifest codec.decodeManifest file = .ok m') : m = m' := by
 obtain ⟨encoded, first, second⟩ := faithful.manifest_stable written (readManifest_ok read)
 exact faithful.manifest_injective first second

theorem readChunkTable_written (faithful : codec.Faithful)
  (written : codec.encodeTable t = some file)
  (read : readChunkTable codec.decodeTable file = .ok t') : t = t' := by
 obtain ⟨encoded, first, second⟩ := faithful.table_stable written (readChunkTable_ok read)
 exact faithful.table_injective first second

theorem samePublic_self (m : Manifest) (ref : Option Ref) :
  SamePublic m { m with privateRef := ref } :=
 rfl

theorem sameTable_self (t : ChunkTable) : SameTable t t :=
 ⟨rfl, List.forall₂_same.mpr fun _ _ => rfl⟩

/-- A binding accepts its own backup in each form a reader meets: as split, merged, and read back
from its files with any reference to the private blob. It accepts nothing that differs from its
backup in a public field or in a row, and the index blob it accepts is its own. -/
theorem binding_exact (faithful : codec.Faithful)
  (bound : newBinding codec.toJson m t indexBlob = .ok b) :
  check codec.toJson b m t = .ok () ∧ (∀ p : PrivateData, p.chunks.length = t.chunks.length →
   check codec.toJson b (mergePrivate m t p).1 (mergePrivate m t p).2.1 = .ok ()) ∧
  (∀ ref file file' m' t', codec.encodeManifest { m with privateRef := ref } = some file →
   codec.encodeTable t = some file' → readManifest codec.decodeManifest file = .ok m' →
   readChunkTable codec.decodeTable file' = .ok t' →
   check codec.toJson b m' t' = .ok () ∧
    ∀ p : PrivateData, p.chunks.length = t'.chunks.length →
     check codec.toJson b (mergePrivate m' t' p).1 (mergePrivate m' t' p).2.1 = .ok ()) ∧
  ∀ m' t' blob,
   CollisionFree (boundTexts codec.toJson m t indexBlob ∪ boundTexts codec.toJson m' t' blob) →
   (check codec.toJson b m' t' = .ok () → SamePublic m m' ∧ SameTable t t') ∧
    (checkIndexBlob (some b) blob = .ok () ↔ blob = indexBlob) := by
 have own : ∀ ref, check codec.toJson b { m with privateRef := ref } t = .ok () := by
  intro ref
  exact check_samePublic bound (samePublic_self m ref) (sameTable_self t)
 have self : check codec.toJson b m t = .ok () := own m.privateRef
 refine ⟨self, ?_, ?_, ?_⟩
 · intro p _
   rw [check_merged]
   exact self
 · intro ref file file' m' t' written written' read read'
   obtain rfl := readManifest_written faithful written read
   obtain rfl := readChunkTable_written faithful written' read'
   refine ⟨own ref, ?_⟩
   intro p _
   rw [check_merged]
   exact own ref
 · intro m' t' blob free
   refine ⟨samePublic_of_check faithful bound free, ?_⟩
   exact checkIndexBlob_iff bound free (.inl (.inr (.inr rfl))) (.inr (.inr (.inr rfl)))

def sampleManifest : Manifest := { (default : Manifest) with schemaVersion := 2, createdAt := 7 }

def sampleTable : ChunkTable := ⟨2, [⟨0, lit "backup/data/000000.blob", [], [], 0, 5⟩]⟩

def sampleCodec : JsonCodec where
 marshalManifest m :=
  if m = sampleManifest then some [1]
  else if m = { sampleManifest with createdAt := 8 } then some [2] else none
 marshalTable t := if t = sampleTable then some [3] else none
 encodeManifest m := if m = sampleManifest then some [1] else none
 encodeTable t := if t = sampleTable then some [3] else none
 decodeManifest file := if file = [1] then some sampleManifest else none
 decodeTable file := if file = [3] then some sampleTable else none

theorem sampleCodec_faithful : sampleCodec.Faithful where
 manifest_injective := by
  intro m m' encoded first second
  simp only [sampleCodec] at first second
  split at first
  · cases first
    split at second
    · simp_all
    · split at second <;> simp_all
  · split at first
    · cases first
      split at second
      · simp_all
      · split at second <;> simp_all
    · cases first
 table_injective := by
  intro t t' encoded first second
  simp only [sampleCodec] at first second
  split at first
  · split at second <;> simp_all
  · cases first
 manifest_stable := by
  intro m m' file written read
  simp only [sampleCodec] at written read
  split at written
  · split at read <;> simp_all [sampleCodec]
  · cases written
 table_stable := by
  intro t t' file written read
  simp only [sampleCodec] at written read
  split at written
  · split at read <;> simp_all [sampleCodec]
  · cases written

/-- The binding of the sample accepts it, refuses another creation time and another index blob. -/
theorem sample_binding : ∃ b, newBinding sampleCodec.toJson sampleManifest sampleTable [9] = .ok b ∧
   check sampleCodec.toJson b sampleManifest sampleTable = .ok () ∧
   check sampleCodec.toJson b { sampleManifest with createdAt := 8 } sampleTable ≠ .ok () ∧
   checkIndexBlob (some b) [10] ≠ .ok () := by
 have bound : newBinding sampleCodec.toJson sampleManifest sampleTable [9] =
   .ok ⟨digestText [1], digestText [3], digestText [9], policyOf sampleManifest⟩ := by
  decide +kernel
 obtain ⟨accepted, -, -, only⟩ := binding_exact sampleCodec_faithful bound
 have free : CollisionFree (boundTexts sampleCodec.toJson sampleManifest sampleTable [9] ∪
   boundTexts sampleCodec.toJson { sampleManifest with createdAt := 8 } sampleTable [10]) := by
  have listed : CollisionFree {text | text ∈ ([[1], [2], [3], [9], [10]] : List Bytes)} := by
   apply collisionFree_list
   decide +kernel
  have first : sampleCodec.marshalManifest (canonicalManifest sampleManifest) = some [1] := by
   decide
  have second : sampleCodec.marshalManifest
    (canonicalManifest { sampleManifest with createdAt := 8 }) = some [2] := by decide
  have table : sampleCodec.marshalTable (canonicalTable sampleTable) = some [3] := by decide
  apply listed.mono
  simp only [boundTexts, first, second, table, Option.some.injEq]
  rintro text ((rfl | rfl | rfl) | (rfl | rfl | rfl)) <;> simp
 obtain ⟨manifest, index⟩ := only _ _ _ free
 refine ⟨_, bound, accepted, ?_, ?_⟩
 · intro other
   have same := (manifest other).1
   exact absurd same (by unfold SamePublic; decide)
 · intro other
   exact absurd (index.mp other) (by decide)

end BackImage.Index.Confidential
