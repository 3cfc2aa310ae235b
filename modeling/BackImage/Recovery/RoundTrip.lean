/- source: pkg/backup/pipeline.go, pkg/recovery/recovery.go
  digest: What a local backup was fed comes back from its image, in the clear or under a key. -/

import BackImage.Backup.BuilderLayers
import BackImage.Index.FileTable
import BackImage.Recovery.FailedUnlock
import BackImage.Recovery.ImageReads

namespace BackImage.Recovery.RoundTrip

open Backup.BuilderLayers Backup.CutRefinement Backup.Pipeline Chunk.Boundary Crypt.Envelope
open Index.FileTable (coerce)
open Go.Sha256 Go.Text Index.Confidential Index.CutTables Index.Limits Index.Private Index.Model
open Index.Limiter (defaultMaxMetadataBytes)
open Index.FileTable
open Lib.Wrap ChunkLayout ImageReads StreamTar Unlock
open Lib.Cut (cut flatten_cut ne_nil_of_mem_cut)
open Lib.Sequence (okWith exists_of_okWith)
open Lib.Reading (Script)

theorem data_number (i : Nat) (data : List Bytes) : (number i data).map PlainChunk.data = data := by
 induction data generalizing i with
 | nil => rfl
 | cons d rest ih => rw [number, List.map_cons, ih]

theorem assemble_clear {w : MetadataWriter} {m : Manifest} {t : ChunkTable}
  {entries : List FileEntry} {md : Metadata}
  (clear : m.encryption.enabled = false) (result : assemble w m t entries = .ok md) :
  md.manifest = m ∧ md.table = t := by
 unfold assemble at result
 simp only [splitPrivate, clear, Bool.false_eq_true, if_false] at result
 split at result
 · cases result
 · cases result
   exact ⟨rfl, rfl⟩

theorem assemble_sealed {w : MetadataWriter} {m : Manifest} {t : ChunkTable}
  {entries : List FileEntry} {md : Metadata}
  (enabled : m.encryption.enabled = true) (result : assemble w m t entries = .ok md) :
  ∃ p binding blob, (splitPrivate m t).2.2 = some p ∧
   newBinding w.json (splitPrivate m t).1 (splitPrivate m t).2.1 md.indexBlob = .ok binding ∧
   w.writePrivate { p with binding := some binding } = .ok blob ∧ md.privateBlob = some blob ∧
   md.manifest =
    { (splitPrivate m t).1 with privateRef := some ⟨privatePath, digestText blob, true⟩ } ∧
   md.table = (splitPrivate m t).2.1 := by
 unfold assemble at result
 simp only [splitPrivate, enabled, if_true] at result ⊢
 split at result
 · cases result
 · split at result
   · cases result
   · rename_i binding bound
     split at result
     · cases result
     · rename_i blob written
       cases result
       exact ⟨_, binding, blob, rfl, bound, written, rfl, rfl, rfl⟩

theorem mergeable_layerRows {groups : List (List StoredChunk)}
  (genuine : ∀ c ∈ groups.flatten, Genuine c.plain)
  (small : (((groups.flatten.map fun c => c.plain.data).flatten).length : Int) < bound) :
  MergeableRows (groups.flatMap layerRows) := by
 intro row member
 obtain ⟨g, listed, inside⟩ := List.mem_flatMap.mp member
 obtain ⟨c, chunk, rfl⟩ := List.mem_map.mp inside
 have member : c ∈ groups.flatten := List.mem_flatten.mpr ⟨g, listed, chunk⟩
 constructor
 · change validDigest (lit "sha256:" ++ hexEncode c.plain.plainSHA) = true
   rw [(genuine c member).digest]
   exact validDigest_digestText c.plain.data
 · change 0 ≤ c.plain.plainBytes
   rw [Int64.le_iff_toInt_le, plainBytes_toInt genuine small member]
   exact Int.natCast_nonneg _

theorem loadPrivate_merges {pk : Packages} {b : Backup} {ref : Ref} {opener : Opener} {blob : Bytes}
  {p : PrivateData} (reference : b.manifest.privateRef = some ref) (held : b.opener = some opener)
  (fetched : b.backend.metadataBlob BlobSource.privateBlob ref.path = .ok blob)
  (read : Index.Private.readPrivate pk.aead pk.decoders blob (some opener) = .ok p)
  (passes : checkBinding pk.json b.key b.manifest b.table p = .ok ())
  (merges : (mergePrivate b.manifest b.table p).2.2 = .ok ()) : loadPrivate pk b =
   ({ b.merged p with binding := p.binding, layout := computeLayout (b.merged p).table },
    .ok ()) := by
 unfold loadPrivate
 simp only [reference, held, fetched, read, passes, merges]

theorem unlock_loads {pk : Packages} {id : Identity} {b b' : Backup} {km : KeyMaterial}
  (enabled : b.manifest.encryption.enabled = true) (obtained : obtainKey pk id b.backend = .ok km)
  (loaded : loadPrivate pk (b.install enabled km) = (b', .ok ())) :
  unlock pk id b = (b', .ok ()) := by
 have opener : newKeyedOpener km = some (.keyed km.dek) := by
  unfold newKeyedOpener
  rw [if_pos (Recovery.FailedUnlock.validate_of_obtainKey obtained)]
 unfold unlock
 rw [dif_pos enabled]
 simp only [obtained, opener, loaded]

/-- The sealer of a run is that of the key, over a cipher that opens what it seals. -/
structure Seals (pk : Packages) (km : KeyMaterial) (codec : Codec)
  (sealer : Nat → UInt32 → Bytes → Except Str Bytes) : Prop where
 blob : ∀ n i payload stored, sealer n i payload = .ok stored → ∃ mode drawn,
  drawn.length = nonceLen ∧
  stored = sealBlob pk.aead km.dek km.nonceKey mode drawn .data i codec payload
 cipher : ∀ nonce payload ad, pk.aead.open_ km.dek nonce (pk.aead.seal_ km.dek nonce payload ad)
  ad = some payload

theorem Seals.opens {pk : Packages} {km : KeyMaterial} {codec : Codec}
  {sealer : Nat → UInt32 → Bytes → Except Str Bytes}
  (seals : Seals pk km codec sealer) {n : Nat} {i : UInt32} {payload stored : Bytes}
  (result : sealer n i payload = .ok stored) :
  (Opener.keyed km.dek).open pk.aead .data i stored = .ok (payload, codec) := by
 obtain ⟨mode, drawn, whole, rfl⟩ := seals.blob n i payload stored result
 exact @Crypt.Integrity.open_of_sealed i km.nonceKey ⟨mode, drawn, .data, i, codec, payload⟩
  pk.aead km.dek
  [⟨mode, drawn, .data, i, codec, payload⟩] (fun _ _ => seals.cipher _ _ _) List.mem_cons_self whole
   (.inr rfl)

/-- The private half is sealed with the key of the run, and the reader's packages decode it. -/
structure WritesPrivate (pk : Packages) (km : KeyMaterial) (w : MetadataWriter) (s : KeyedSealer) :
  Prop where
 sealer : w.sealer = some s
 dek : s.dek = km.dek
 drawn : s.drawn.length = nonceLen
 aead : w.aead = pk.aead
 json : w.json = pk.json
 decodes : Decodes w.codec pk.decoders

theorem newBackup_fresh {backend : Backend} {m : Manifest} {t : ChunkTable} {b : Backup}
  (opened : newBackup backend m t = .ok b) :
  validateChunkTable m t = .ok () ∧ b = Backup.fresh backend m t := by
 unfold newBackup at opened
 split at opened
 · cases opened
 · split at opened
   · cases opened
   · split at opened
     · cases opened
     · rename_i accepted
       cases opened
       exact ⟨accepted, rfl⟩

theorem stored_of_mem {store : Store} {cks : List PlainChunk} {c : StoredChunk}
  (member : c ∈ storedChunks store cks) :
  storedOf store c.plain = .ok c.stored := by
 obtain ⟨ck, -, made⟩ := List.mem_filterMap.mp member
 split at made
 · rename_i blob storedIs
   cases made
   exact storedIs
 · cases made

/-- A backup that ended well: its chunks as stored, the layers they were cut into, and the metadata
assembled from the complete tables. -/
structure Finished where
 store : Store
 writer : MetadataWriter
 data : List Bytes
 layers : List (List StoredChunk)
 manifest : Manifest
 entries : List FileEntry
 md : Metadata
 plains : layers.flatten.map StoredChunk.plain = number 0 data
 stored : ∀ c ∈ layers.flatten, storedOf store c.plain = .ok c.stored
 solid : ∀ g ∈ layers, g ≠ []
 count : manifest.chunking.count = layers.flatten.length
 infos : manifest.layers = layersFrom 0 0 layers
 assembled : assemble writer manifest ⟨schemaVersion, layers.flatMap layerRows⟩ entries = .ok md

namespace Finished

/-- What is taken for granted of a backup: stored and plain sizes that can be counted, and a digest
that tells its layers apart. -/
structure Sane (k : Finished) : Prop where
 storable : Storable (maxStoredChunkBytes k.md.manifest) k.layers.flatten
 small : (k.data.flatten.length : Int) < bound
 free : CollisionFree {content | content ∈ k.layers.map layerContent}

variable {k : Finished}

theorem numbered (k : Finished) : Numbered k.layers.flatten := by
 intro i c at_i
 have plain : (number 0 k.data)[i]? = some c.plain := by
  rw [← k.plains, List.getElem?_map, at_i]
  rfl
 have index := number_index plain
 omega

theorem datas (k : Finished) : k.layers.flatten.map (fun c => c.plain.data) = k.data := by
 have mapped := congrArg (List.map PlainChunk.data) k.plains
 rwa [data_number, List.map_map] at mapped

theorem genuine {c : StoredChunk} (member : c ∈ k.layers.flatten) : Genuine c.plain := by
 refine genuine_number 0 k.data c.plain ?_
 rw [← k.plains]
 exact List.mem_map_of_mem member

variable {b : Backup} {pk : Packages} {codec : Codec} {backend : Backend}

section Sane

variable (sane : Sane k)

include sane

theorem Sane.small_map : (((k.layers.flatten.map fun c => c.plain.data).flatten).length : Int) <
  bound := by
 rw [k.datas]
 exact sane.small

theorem paths_nodup (accepted : validateChunkTable k.md.manifest k.md.table = .ok ()) :
  (k.layers.map layerPath).Nodup := by
 have describes := describes_of_assemble k.assembled k.count k.infos rfl
 have nodup := (describes_accepted_iff describes k.solid k.numbered sane.storable sane.free).mp
  accepted
 have asPath : k.layers.map layerPath =
   (k.layers.map layerContent).map fun content => dataBlobPath (digestText content) := by
  rw [List.map_map]
  rfl
 rw [asPath]
 refine List.Nodup.map_on ?_ nodup
 intro x hx y hy equal
 obtain ⟨g, -, rfl⟩ := List.mem_map.mp hx
 obtain ⟨h, -, rfl⟩ := List.mem_map.mp hy
 exact layerPath_inj sane.free hx hy equal

theorem image_of_rows (accepted : validateChunkTable k.md.manifest k.md.table = .ok ())
  (serves : Serves k.layers b.backend)
  (rows : b.table.chunks = k.layers.flatMap layerRows) (layout : b.layout = computeLayout b.table) :
  Image b k.layers where
 rows := rows
 layout := layout
 solid := k.solid
 paths := paths_nodup sane accepted
 fits := sane.storable.fits
 serves := serves

variable (undoes : Undoes pk codec k.store.compress)

include undoes

theorem restores_image (image : Image b k.layers)
  (opens : ∀ i c compressed, k.layers.flatten[i]? = some c →
   c.plain.index = i → storedOf k.store c.plain = .ok c.stored →
   k.store.compress c.plain.index c.plain.data = .ok compressed →
   plainChunkPayload pk b i = .ok (compressed, codec)) :
  Restores pk b k.data := by
 have restores := image.restores (fun c member => genuine member) sane.small_map k.stored undoes
  (fun i c compressed at_i squeezed => opens i c compressed at_i (k.numbered i c at_i)
   (k.stored c (List.mem_of_getElem? at_i)) squeezed)
 rwa [k.datas] at restores

theorem restores_keyed {km : KeyMaterial} {sealer : Nat → UInt32 → Bytes → Except Str Bytes}
  (image : Image b k.layers)
  (enabled : b.manifest.encryption.enabled = true) (key : b.key = some km)
  (sealed : k.store.sealer = some sealer) (seals : Seals pk km codec sealer) :
  Restores pk b k.data := by
 refine restores_image sane undoes image ?_
 intro i c compressed at_i index storedIs squeezed
 have opens : (Opener.keyed km.dek).open pk.aead .data (UInt32.ofNat i) c.stored =
   .ok (compressed, codec) := by
  simp only [storedOf, squeezed, sealed] at storedIs
  split at storedIs
  · cases storedIs
  · rename_i stored made
    cases storedIs
    rw [index] at made
    exact seals.opens made
 unfold plainChunkPayload
 rw [if_neg (by simp [key])]
 simp only [image.storedChunk at_i, enabled, if_true, b.keyed km key, opens]

variable (serves : Serves k.layers backend)
 (opened : newBackup backend k.md.manifest k.md.table = .ok b)

include serves opened

theorem restores_clear (clear : k.manifest.encryption.enabled = false)
  (unsealed : k.store.sealer = none)
  (named : codecByName k.manifest.archive.compression = some codec) : Restores pk b k.data := by
 obtain ⟨accepted, rfl⟩ := newBackup_fresh opened
 obtain ⟨manifest, table⟩ := assemble_clear clear k.assembled
 have image : Image (Backup.fresh backend k.md.manifest k.md.table) k.layers :=
  image_of_rows sane accepted serves (congrArg ChunkTable.chunks table) rfl
 refine restores_image sane undoes image ?_
 intro i c compressed at_i _ storedIs squeezed
 have bare : c.stored = compressed := by
  simp only [storedOf, squeezed, unsealed, Except.ok.injEq] at storedIs
  exact storedIs.symm
 have off : (Backup.fresh backend k.md.manifest k.md.table).manifest.encryption.enabled = false :=
  (congrArg (fun m => m.encryption.enabled) manifest).trans clear
 have codecIs : codecByName
  (Backup.fresh backend k.md.manifest k.md.table).manifest.archive.compression = some codec :=
  (congrArg (fun m => codecByName m.archive.compression) manifest).trans named
 unfold plainChunkPayload
 simp only [off, Bool.false_eq_true, false_and, if_false, image.storedChunk at_i, codecIs, bare]

theorem restores_sealed {id : Identity} {km : KeyMaterial}
  {sealer : Nat → UInt32 → Bytes → Except Str Bytes}
  {ks : KeyedSealer} (enabled : k.manifest.encryption.enabled = true)
  (sealed : k.store.sealer = some sealer)
  (seals : Seals pk km codec sealer) (writes : WritesPrivate pk km k.writer ks)
  (aead : coerce k.manifest.encryption.aead = k.manifest.encryption.aead)
  (mode : coerce k.manifest.encryption.nonceMode = k.manifest.encryption.nonceMode)
  (obtained : obtainKey pk id backend = .ok km) (fetched : ∀ blob, k.md.privateBlob = some blob →
   backend.metadataBlob BlobSource.privateBlob privatePath = .ok blob)
  (capped : ∀ blob, k.md.privateBlob = some blob → blob.length ≤
   defaultMaxMetadataBytes.toNatClampNeg) :
  ∃ b', unlock pk id b = (b', .ok ()) ∧ Restores pk b' k.data := by
 obtain ⟨accepted, rfl⟩ := newBackup_fresh opened
 have made := k.assembled
 generalize k.manifest = m at enabled made aead mode
 obtain ⟨p, binding, blob, half, bound, written, attached, manifest, table⟩ :=
  assemble_sealed enabled made
 have rows := mergeable_layerRows (fun c member => genuine (k := k) member) sane.small_map
 obtain ⟨p', half', merged⟩ :=
  mergePrivate_split (t := ⟨schemaVersion, k.layers.flatMap layerRows⟩) enabled rows
 rw [half] at half'
 cases half'
 have read : Index.Private.readPrivate pk.aead pk.decoders blob (some (.keyed km.dek)) =
   .ok (coercePrivate { p with binding := some binding }) := by
  rw [MetadataWriter.writePrivate, writes.sealer, writes.aead] at written
  rw [← writes.dek]
  refine readPrivate_written writes.decodes ?_ writes.drawn written (capped blob attached)
  intro nonce payload ad _
  rw [writes.dek]
  exact seals.cipher nonce payload ad
 have secrets : (coercePrivate { p with binding := some binding }).chunks = p.chunks := by
  refine coercePrivate_chunks fun c member => ?_
  simp only [splitPrivate, enabled, if_true, Option.some.injEq] at half
  rw [← half] at member
  obtain ⟨row, listed, rfl⟩ := List.mem_map.mp member
  exact (rows row listed).1
 have completed :
  (mergePrivate k.md.manifest k.md.table (coercePrivate { p with binding := some binding })).2 =
   (⟨schemaVersionPrivate, k.layers.flatMap layerRows⟩, .ok ()) := by
  rw [table]
  refine (mergePrivate_table (p := p) ?_ secrets).trans (congrArg Prod.snd merged)
  rfl
 have passes : check pk.json binding k.md.manifest k.md.table = .ok () := by
  rw [manifest, table, ← writes.json]
  exact check_samePublic bound (samePublic_self _ _) (sameTable_self _)
 have unchanged : coerceBinding binding = binding := by
  refine coerceBinding_new ?_ ?_ bound <;> simpa only [splitPrivate, enabled, if_true]
 have checked : checkBinding pk.json (some km) k.md.manifest k.md.table
   (coercePrivate { p with binding := some binding }) = .ok () := by
  simp only [checkBinding, coercePrivate, Option.map_some, unchanged, passes]
 have locked : k.md.manifest.encryption.enabled = true := by
  rw [manifest]
  simp only [splitPrivate, enabled, if_true]
 have reference : k.md.manifest.privateRef = some ⟨privatePath, digestText blob, true⟩ := by
  rw [manifest]
 have loaded := loadPrivate_merges
  (b := (Backup.fresh backend k.md.manifest k.md.table).install locked km) reference rfl
  (fetched blob attached) read checked (congrArg Prod.snd completed)
 refine ⟨_, unlock_loads (b := Backup.fresh backend k.md.manifest k.md.table) locked obtained
  loaded, ?_⟩
 refine restores_keyed sane undoes (image_of_rows sane accepted serves ?_ rfl) ?_ rfl sealed seals
 · exact congrArg (fun r => r.1.chunks) completed
 · change (mergePrivate k.md.manifest k.md.table _).1.encryption.enabled = true
   rw [mergePrivate_enabled]
   exact locked

end Sane

end Finished

section Local

variable {env : Env} {cfg : Config} {feed : Feed} {boundary : LayerBoundary} {md : Metadata}

/-- A local backup whose tables are accepted is one of them. -/
theorem finished_of_backup (result : backupWith env cfg feed boundary = .ok md)
  (few : feed.data.length < 4294967296) :
  ∃ k : Finished, k.store = env.store ∧ k.writer = env.writer ∧ k.data = feed.data ∧ k.md = md ∧
   k.layers = cut (rolls (policyOf cfg) boundary) (storedChunks env.store (number 0 feed.data)) ∧
   ∃ b, k.manifest = manifestOf env cfg feed.stats b := by
 obtain ⟨b, built, finalized⟩ := backupWith_built result
 simp only [finalize] at finalized
 split at finalized
 · cases finalized
 · rename_i md made
   cases finalized
   -- the last layer was rolled, so that no chunk is left outside the layers
   rw [built.rows few] at made
   refine ⟨⟨env.store, env.writer, feed.data, _, manifestOf env cfg feed.stats b, feed.entries,
    md, ?_, ?_,
    fun _ member => ne_nil_of_mem_cut member, built.count few, built.layers few, made⟩, rfl, rfl,
     rfl, rfl, rfl, b, rfl⟩
   · rw [flatten_cut]
     exact built.plains
   · rw [flatten_cut]
     exact fun c member => stored_of_mem member

variable (result : backupWith env cfg feed boundary = .ok md)
 (storable : Storable (maxStoredChunkBytes md.manifest)
  (storedChunks env.store (number 0 feed.data)))
 (small : (feed.data.flatten.length : Int) < bound)
 (free : CollisionFree
  {content | content ∈ (cut (rolls (policyOf cfg) boundary)
   (storedChunks env.store (number 0 feed.data))).map layerContent})
 (serves :
  Serves (cut (rolls (policyOf cfg) boundary) (storedChunks env.store (number 0 feed.data)))
   backend)
 (opened : newBackup backend md.manifest md.table = .ok b)

include result storable small free serves opened

theorem finished_of_opened : ∃ k : Finished, k.Sane ∧ Serves k.layers backend ∧
  k.store = env.store ∧
   k.writer = env.writer ∧ k.data = feed.data ∧ k.md = md ∧
   ∃ b, k.manifest = manifestOf env cfg feed.stats b := by
 have few := ((backupWith_accepted_iff result storable free).mp (newBackup_fresh opened).1).1
 obtain ⟨k, store, writer, data, rfl, layers, manifest⟩ := finished_of_backup result few
 rw [← layers] at free serves
 rw [← data] at small
 rw [← flatten_cut (rolls (policyOf cfg) boundary) (storedChunks env.store (number 0 feed.data)),
  ← layers] at storable
 exact ⟨k, ⟨storable, small, free⟩, serves, store, writer, data, rfl, manifest⟩

/-- An unencrypted backup that opens gives back what it was fed, from its layer files as from single
chunks. -/
theorem clear_backup_restores (undoes : Undoes pk codec env.store.compress)
  (clear : cfg.encrypt = false)
  (unsealed : env.store.sealer = none) (named : codecByName cfg.codecName = some codec) :
  Restores pk b feed.data := by
 obtain ⟨k, sane, serves, store, -, data, rfl, builder, manifest⟩ :=
  finished_of_opened result storable small free serves opened
 rw [← store] at undoes unsealed
 rw [← data]
 refine k.restores_clear sane undoes serves opened ?_ unsealed ?_
 · simp only [manifest, manifestOf, clear]
   rfl
 · rw [manifest]
   exact named

/-- An encrypted backup that opens is unlocked by its key and gives back what it was fed: the
private half comes out of its blob, passes the binding and completes the rows. -/
theorem sealed_backup_restores {id : Identity} {km : KeyMaterial}
  {sealer : Nat → UInt32 → Bytes → Except Str Bytes}
  {ks : KeyedSealer} (undoes : Undoes pk codec env.store.compress) (encrypted : cfg.encrypt = true)
  (sealed : env.store.sealer = some sealer) (seals : Seals pk km codec sealer)
  (writes : WritesPrivate pk km env.writer ks) (obtained : obtainKey pk id backend = .ok km)
  (fetched : ∀ blob, md.privateBlob = some blob →
   backend.metadataBlob BlobSource.privateBlob privatePath = .ok blob)
  (capped : ∀ blob, md.privateBlob = some blob → blob.length ≤
   defaultMaxMetadataBytes.toNatClampNeg) :
  ∃ b', unlock pk id b = (b', .ok ()) ∧ Restores pk b' feed.data := by
 obtain ⟨k, sane, serves, store, writer, data, rfl, builder, manifest⟩ :=
  finished_of_opened result storable small free serves opened
 rw [← store] at undoes sealed
 rw [← writer] at writes
 rw [← data]
 refine k.restores_sealed sane undoes serves opened ?_ sealed seals writes ?_ ?_ obtained
  fetched capped
 · simp only [manifest, manifestOf, encrypted]
   rfl
 · simp only [manifest, manifestOf, encrypted, if_true]
   decide
 · simp only [manifest, manifestOf, encrypted, if_true]
   cases cfg.dedup <;> decide

end Local

def wholeFile (content : Bytes) : OpenFile :=
 ⟨Script.ofList content, some (Int64.ofNat content.length), fun _ => none, none⟩

def layerFiles (groups : List (List StoredChunk)) : Source where
 openFile path :=
  match groups.find? (layerPath · = path) with
  | some g => .ok (wholeFile (layerContent g))
  | none => .error []

theorem serves_layerFiles {groups : List (List StoredChunk)}
  (free : CollisionFree {content | content ∈ groups.map layerContent}) :
  Serves groups (.source (layerFiles groups)) := by
 intro g member
 cases found : groups.find? (layerPath · = layerPath g) with
 | none => exact absurd (decide_eq_true rfl) (List.find?_eq_none.mp found g member)
 | some h =>
  have path : layerPath h = layerPath g := by simpa using List.find?_some found
  have same := layerPath_inj free (List.mem_map_of_mem (List.mem_of_find?_eq_some found))
   (List.mem_map_of_mem member) path
  refine ⟨wholeFile (layerContent g), by simp only [layerFiles, found, same], ?_, ?_, ?_⟩
  · exact Script.content_ofList _
  · rintro _ ⟨⟩
    rfl
  · rintro _ _ ⟨⟩

def storeConfig : Config :=
 { (default : Config) with chunkBytes := 1048576, codecName := lit "store" }

def twoChunks : Feed := feedOf [[1, 2, 3], [4, 5]]

def twoGroups : List (List StoredChunk) := cut (rolls (policyOf storeConfig) (fixedBoundary 2))
 (storedChunks plainEnv.store (number 0 twoChunks.data))

theorem two_chunks_restored :
  ∃ md b, backupWith plainEnv storeConfig twoChunks (fixedBoundary 2) = .ok md ∧
   newBackup (.source (layerFiles twoGroups)) md.manifest md.table = .ok b ∧
   streamTar storePackages calmSchedule b true = ([1, 2, 3, 4, 5], .ok ()) := by
 obtain ⟨md, result, checks⟩ := exists_of_okWith
  (x := backupWith plainEnv storeConfig twoChunks (fixedBoundary 2))
  (p := fun md => decide (Storable (maxStoredChunkBytes md.manifest)
   (storedChunks plainEnv.store (number 0 twoChunks.data))) &&
   okWith (newBackup (.source (layerFiles twoGroups)) md.manifest md.table) fun _ => true)
    (by decide +kernel)
 obtain ⟨storable, accepts⟩ := Bool.and_eq_true_iff.mp checks
 obtain ⟨b, opened, -⟩ := exists_of_okWith accepts
 have free : CollisionFree {content | content ∈ twoGroups.map layerContent} :=
  collisionFree_list (by decide +kernel)
 have undoes : Undoes storePackages .store plainEnv.store.compress := by
  rintro _ data _ ⟨⟩
  exact ⟨_, rfl, Script.content_ofList data, rfl, rfl⟩
 have restores : Restores storePackages b twoChunks.data :=
  clear_backup_restores result (of_decide_eq_true storable)
  (by decide +kernel) free (serves_layerFiles free) opened undoes rfl rfl rfl
 exact ⟨md, b, result, opened, restores.whole calmSchedule true fun _ => rfl⟩

def sealWith (role : Role) (i : UInt32) (codec : Codec) (payload : Bytes) : Bytes :=
 sealBlob storePackages.aead oneKey.dek oneKey.nonceKey .random (List.replicate nonceLen 0) role i
  codec payload

/-- The private half of the sealed backup below. -/
def sealedPrivate : PrivateData :=
 { (default : PrivateData) with
   schemaVersion := schemaVersionPrivate
   binding := some ⟨digestText [], digestText [], digestText [],
    ⟨2, lit "aes256-gcm", 3, lit "random", true⟩⟩
   totals := { (default : Totals) with bytesStored := 53 }
   chunks := [⟨digestText [1, 2, 3], 3⟩, ⟨digestText [4, 5], 2⟩] }

def oneSealer : KeyedSealer := ⟨oneKey.dek, oneKey.nonceKey, .random, List.replicate nonceLen 0⟩

def sealedEnv : Env :=
 { plainEnv with
   store := ⟨fun _ data => .ok data, some fun _ i payload => .ok (sealWith .data i .store payload)⟩
   writer :=
    { plainWriter with
      codec := ⟨fun p => if p = sealedPrivate then some [1] else none, id⟩
      aead := storePackages.aead
      sealer := some oneSealer } }

def keyedPackages : Packages :=
 { storePackages with
   age := ⟨Unit, fun _ => .ok (some ()), fun _ _ => some [], fun _ => some oneKey⟩
   json := ⟨fun _ => some [], fun _ => some []⟩
   decoders := ⟨fun _ => .ok sealedPrivate, fun _ => .error []⟩ }

def sealedConfig : Config := { storeConfig with encrypt := true }

def sealedChunks : List StoredChunk := storedChunks sealedEnv.store (number 0 twoChunks.data)

def sealedBackend : Backend :=
 .blobs
  { keyFile := fun _ => .ok []
    indexBlob := .ok []
    privateBlob := .ok (sealWith .confidential 0 .zstd [1])
    blob := fun i =>
     match sealedChunks[i]? with
     | some c => .ok c.stored
     | none => .error [] }

theorem sealed_chunks_restored :
  ∃ md b b', backupWith sealedEnv sealedConfig twoChunks (fixedBoundary 2) = .ok md ∧
   newBackup sealedBackend md.manifest md.table = .ok b ∧
   unlock keyedPackages ⟨lit "secret", []⟩ b = (b', .ok ()) ∧
   streamTar keyedPackages calmSchedule b' false = ([1, 2, 3, 4, 5], .ok ()) := by
 obtain ⟨md, result, checks⟩ := exists_of_okWith
  (x := backupWith sealedEnv sealedConfig twoChunks (fixedBoundary 2))
  (p := fun md => decide (Storable (maxStoredChunkBytes md.manifest) sealedChunks ∧
    md.privateBlob = some (sealWith .confidential 0 .zstd [1])) &&
   okWith (newBackup sealedBackend md.manifest md.table) fun _ => true) (by decide +kernel)
 obtain ⟨facts, accepts⟩ := Bool.and_eq_true_iff.mp checks
 obtain ⟨storable, attached⟩ := of_decide_eq_true facts
 obtain ⟨b, opened, -⟩ := exists_of_okWith accepts
 have seals : Seals keyedPackages oneKey .store fun _ i payload =>
   .ok (sealWith .data i .store payload) := by
  refine ⟨?_, fun _ _ _ => rfl⟩
  rintro n i payload _ ⟨⟩
  exact ⟨.random, List.replicate nonceLen 0, List.length_replicate, rfl⟩
 have serves : Serves (cut (rolls (policyOf sealedConfig) (fixedBoundary 2)) sealedChunks)
   sealedBackend := by
  intro i c at_i
  rw [flatten_cut] at at_i
  simp only [at_i]
 have undoes : Undoes keyedPackages .store sealedEnv.store.compress := by
  rintro _ data _ ⟨⟩
  exact ⟨_, rfl, Script.content_ofList data, rfl, rfl⟩
 have obtained : obtainKey keyedPackages ⟨lit "secret", []⟩ sealedBackend = .ok oneKey := by
  decide +kernel
 have fetched : ∀ blob, md.privateBlob = some blob →
   sealedBackend.metadataBlob BlobSource.privateBlob privatePath = .ok blob := by
  intro blob is
  rw [attached] at is
  cases is
  rfl
 have writes : WritesPrivate keyedPackages oneKey sealedEnv.writer oneSealer := by
  refine ⟨rfl, rfl, List.length_replicate, rfl, rfl, ?_⟩
  intro p text encoded
  change (if p = sealedPrivate then _ else _) = _ at encoded
  split at encoded
  · rename_i same
    cases encoded
    rw [same]
    decide +kernel
  · cases encoded
 have capped : ∀ blob, md.privateBlob = some blob →
   blob.length ≤ defaultMaxMetadataBytes.toNatClampNeg := by
  intro blob is
  rw [attached] at is
  cases is
  decide +kernel
 obtain ⟨b', unlocked, restores⟩ := sealed_backup_restores result storable (by decide)
  (collisionFree_list (by decide +kernel)) serves opened undoes rfl rfl seals writes obtained
   fetched capped
 exact ⟨md, b, b', result, opened, unlocked, restores.whole calmSchedule false fun _ => rfl⟩

end BackImage.Recovery.RoundTrip
