/- source: pkg/backup/pipeline.go, pkg/server/stream.go
  digest: The tables that describe a cut of stored chunks, when the reader accepts them, and where
    both builders cut. -/

import BackImage.Chunk.Boundary
import BackImage.Index.Limits
import BackImage.Index.Private
import Mathlib.Data.List.Nodup

namespace BackImage.Index.CutTables

open Chunk.Boundary Go.Sha256 Go.Text Lib.Cut Lib.Wrap Limits Model Private

structure StoredChunk where
 plain : PlainChunk
 stored : Bytes
 deriving DecidableEq

/-- What both builders store chunks with. The calls are numbered by the chunk they are made for:
a sealer that draws a random nonce answers differently every time. -/
structure Store where
 compress : Nat → Bytes → Except Str Bytes
 sealer : Option (Nat → UInt32 → Bytes → Except Str Bytes)

inductive StoreError
 | codec (cause : Str)
 | sealChunk (index : Nat) (cause : Str)
 deriving DecidableEq

def storedOf (store : Store) (ck : PlainChunk) : Except StoreError Bytes :=
 match store.compress ck.index ck.data with
 | .error e => .error (.codec e)
 | .ok compressed =>
  match store.sealer with
  | none => .ok compressed
  | some sealChunk =>
   match sealChunk ck.index (UInt32.ofNat ck.index) compressed with
   | .error e => .error (.sealChunk ck.index e)
   | .ok stored => .ok stored

def storedChunks (store : Store) (cks : List PlainChunk) : List StoredChunk :=
 cks.filterMap fun ck =>
  match storedOf store ck with
  | .ok stored => some ⟨ck, stored⟩
  | .error _ => none

variable {store : Store}

theorem storedChunks_cons {ck : PlainChunk} {stored : Bytes}
  (storedIs : storedOf store ck = .ok stored) (cks : List PlainChunk) :
  storedChunks store (ck :: cks) = ⟨ck, stored⟩ :: storedChunks store cks := by
 simp [storedChunks, storedIs]

theorem storedChunks_of_stored {done : List StoredChunk}
  (stored : ∀ s ∈ done, storedOf store s.plain = .ok s.stored) :
  storedChunks store (done.map StoredChunk.plain) = done := by
 induction done with
 | nil => rfl
 | cons s done ih =>
  rw [List.map_cons, storedChunks_cons (stored s List.mem_cons_self),
   ih fun t member => stored t (List.mem_cons_of_mem s member)]

def dataBlobPath (digest : Str) : Str :=
 lit "backup/data/" ++ trimPrefix digest (lit "sha256:") ++ lit ".blob"

/-- `int64(len(stored))`. -/
def StoredChunk.size (s : StoredChunk) : Int64 := Int64.ofNat s.stored.length

def rowOf (path : Str) (s : StoredChunk) : Chunk where
 i := s.plain.index
 p := path
 ps := lit "sha256:" ++ hexEncode s.plain.plainSHA
 ss := digestText s.stored
 pb := s.plain.plainBytes
 sb := s.size

def layerContent (g : List StoredChunk) : Bytes := g.flatMap StoredChunk.stored

def layerPath (g : List StoredChunk) : Str := dataBlobPath (digestText (layerContent g))

def layerRows (g : List StoredChunk) : List Chunk := g.map (rowOf (layerPath g))

def layerSize (g : List StoredChunk) : Int64 := wrapSum 0 (g.map StoredChunk.size)

def plainOf (g : List StoredChunk) : Int64 := wrapSum 0 (g.map fun s => s.plain.plainBytes)

def layersFrom : Nat → Nat → List (List StoredChunk) → List LayerInfo
 | _, _, [] => []
 | n, next, g :: groups =>
  ⟨n, digestText (layerContent g), next, (next : Int) + g.length - 1, layerSize g⟩ ::
   layersFrom (n + 1) (next + g.length) groups

/-- The `chunking` section of the manifest, as both builders fill it in. -/
def chunkingOf (dedup : Bool) (chunkBytes : Int64) (cdc : CDCParams) (fallback : Bool)
  (count : Int) :
  ChunkingInfo :=
 if dedup = false then
  { (default : ChunkingInfo) with
    strategy := lit "length", targetChunkBytes := chunkBytes, count := count }
 else
  { strategy := lit "cdc"
    minChunkBytes := cdc.min
    targetChunkBytes := cdc.avg
    maxChunkBytes := cdc.max
    polynomial := cdc.polynomial
    boundaryFallback := fallback
    count := count }

theorem chunkingOf_count (dedup : Bool) (chunkBytes : Int64) (cdc : CDCParams) (fallback : Bool)
  (count : Int) :
  (chunkingOf dedup chunkBytes cdc fallback count).count = count := by
 unfold chunkingOf
 split <;> rfl

theorem layerContent_append (g h : List StoredChunk) :
  layerContent (g ++ h) = layerContent g ++ layerContent h := by
 simp [layerContent]

theorem layerSize_append (g : List StoredChunk) (s : StoredChunk) :
  layerSize (g ++ [s]) = layerSize g + s.size := by
 rw [layerSize, List.map_append, wrapSum_append]
 rfl

theorem plainOf_append (g : List StoredChunk) (s : StoredChunk) :
  plainOf (g ++ [s]) = plainOf g + s.plain.plainBytes := by
 rw [plainOf, List.map_append, wrapSum_append]
 rfl

structure Spool where
 idx : Nat
 content : Bytes
 size : Int64
 deriving DecidableEq

def Spool.write (s : Spool) (p : Bytes) : Spool :=
 ⟨s.idx, s.content ++ p, s.size + Int64.ofNat p.length⟩

def spoolOf (idx : Nat) (group : List StoredChunk) : Option Spool :=
 if group.isEmpty then none else some ⟨idx, layerContent group, layerSize group⟩

theorem spoolOf_append (idx : Nat) (g : List StoredChunk) (s : StoredChunk) :
  spoolOf idx (g ++ [s]) = some (((spoolOf idx g).getD ⟨idx, [], 0⟩).write s.stored) := by
 rw [spoolOf, if_neg (by simp), layerContent_append, layerSize_append, spoolOf]
 by_cases nothing : g.isEmpty
 · rw [if_pos nothing, List.isEmpty_iff.mp nothing]
   simp [Spool.write, layerContent, layerSize, StoredChunk.size]
 · rw [if_neg nothing]
   simp [Spool.write, layerContent, StoredChunk.size]

theorem layersFrom_length (n next : Nat) (groups : List (List StoredChunk)) :
  (layersFrom n next groups).length = groups.length := by
 induction groups generalizing n next with
 | nil => rfl
 | cons g groups ih => simp [layersFrom, ih]

theorem layersFrom_append (n next : Nat) (groups : List (List StoredChunk)) (g : List StoredChunk) :
  layersFrom n next (groups ++ [g]) =
   layersFrom n next groups ++
    [⟨n + groups.length, digestText (layerContent g), next + groups.flatten.length,
     (next + groups.flatten.length : Int) + g.length - 1, layerSize g⟩] := by
 induction groups generalizing n next with
 | nil => simp [layersFrom]
 | cons h groups ih =>
  rw [List.cons_append, layersFrom, ih, layersFrom]
  simp only [List.cons_append, List.flatten_cons, List.length_append, List.length_cons]
  push_cast
  simp only [Int.add_assoc, Int.add_comm, Int.add_left_comm]

variable {g : List StoredChunk}

theorem layerPath_inj {h : List StoredChunk} {contents : Set Bytes}
  (free : CollisionFree contents) (hg : layerContent g ∈ contents)
  (hh : layerContent h ∈ contents) (same : layerPath g = layerPath h) :
  layerContent g = layerContent h := by
 unfold layerPath dataBlobPath digestText at same
 rw [trimPrefix_append, trimPrefix_append] at same
 exact free hg hh (hexEncode_injective (List.append_cancel_left (List.append_cancel_right same)))

theorem length_stored_le {s : StoredChunk} (member : s ∈ g) :
  s.stored.length ≤ (layerContent g).length := by
 obtain ⟨before, after, rfl⟩ := List.append_of_mem member
 simp only [layerContent, List.flatMap_append, List.flatMap_cons, List.length_append]
 omega

section

variable (fits : ((layerContent g).length : Int) < bound)

include fits

theorem size_toInt {s : StoredChunk} (member : s ∈ g) : s.size.toInt = s.stored.length := by
 have short := length_stored_le member
 exact toInt_ofNat_of_lt (by omega)

theorem exactSum_sizes : exactSum (g.map StoredChunk.size) = (layerContent g).length := by
 induction g with
 | nil => rfl
 | cons s g ih =>
  have head := size_toInt fits List.mem_cons_self
  have split : (layerContent (s :: g)).length = s.stored.length + (layerContent g).length := by
   simp [layerContent]
  rw [split] at fits
  rw [List.map_cons, exactSum_cons, head, ih (by omega), split]
  omega

theorem layerSize_toInt : (layerSize g).toInt = (layerContent g).length := by
 have zero := Int64.toInt_zero
 have nonneg : ∀ x ∈ g.map StoredChunk.size, 0 ≤ x.toInt := by
  intro x member
  obtain ⟨s, inside, rfl⟩ := List.mem_map.mp member
  rw [size_toInt fits inside]
  omega
 have sum := exactSum_sizes fits
 rw [layerSize, wrapSum_toInt (by rw [zero]) nonneg (by rw [zero]; omega), zero, sum]
 omega

theorem layerSize_take_le (k : Nat) : layerSize (g.take k) ≤ layerSize g := by
 have split : (layerContent g).length =
   (layerContent (g.take k)).length + (layerContent (g.drop k)).length := by
  rw [← List.length_append, ← layerContent_append, List.take_append_drop]
 rw [Int64.le_iff_toInt_le, layerSize_toInt fits, layerSize_toInt (by omega)]
 omega

end

def Numbered (chunks : List StoredChunk) : Prop :=
 ∀ (k : Nat) (s : StoredChunk), chunks[k]? = some s → s.plain.index = k

theorem numbered_storedChunks {data : List Bytes}
  (plains : (storedChunks store (number 0 data)).map StoredChunk.plain = number 0 data) :
  Numbered (storedChunks store (number 0 data)) := by
 intro k s found
 have plain : (number 0 data)[k]? = some s.plain := by
  rw [← plains, List.getElem?_map, found]
  rfl
 have index := number_index plain
 omega

/-- What is taken for granted of stored chunks: no empty blob, sizes within the codec allowance
and a total an `int64` can hold. -/
structure Storable (maxStored : Int64) (chunks : List StoredChunk) : Prop where
 nonempty : ∀ s ∈ chunks, s.stored ≠ []
 allowance : 0 < maxStored → ∀ s ∈ chunks, s.size ≤ maxStored
 fits : ((layerContent chunks).length : Int) < bound

instance (maxStored : Int64) (chunks : List StoredChunk) : Decidable (Storable maxStored chunks) :=
 decidable_of_iff
  ((∀ s ∈ chunks, s.stored ≠ []) ∧ (0 < maxStored → ∀ s ∈ chunks, s.size ≤ maxStored) ∧
   ((layerContent chunks).length : Int) < bound)
  ⟨fun ⟨nonempty, allowance, fits⟩ => ⟨nonempty, allowance, fits⟩,
   fun storable => ⟨storable.nonempty, storable.allowance, storable.fits⟩⟩

/-- A manifest and a table that describe the groups. The table may have lost the fields that
`SplitPrivate` strips. -/
structure Describes (m : Manifest) (t : ChunkTable) (groups : List (List StoredChunk)) : Prop where
 count : m.chunking.count = groups.flatten.length
 layers : m.layers = layersFrom 0 0 groups
 rows : ∃ strip : Chunk → Chunk,
  (∀ c, (strip c).i = c.i ∧ (strip c).p = c.p ∧ (strip c).sb = c.sb) ∧
  t.chunks = (groups.flatMap layerRows).map strip

variable {groups : List (List StoredChunk)}

theorem describes_of_assemble {w : MetadataWriter} {m : Manifest} {t : ChunkTable}
  {entries : List FileEntry} {md : Metadata} (result : assemble w m t entries = .ok md)
  (count : m.chunking.count = groups.flatten.length) (layers : m.layers = layersFrom 0 0 groups)
  (rows : t.chunks = groups.flatMap layerRows) : Describes md.manifest md.table groups := by
 obtain ⟨chunking, layersKept, rowsKept⟩ := assemble_ok result
 refine ⟨by rw [chunking, count], by rw [layersKept, layers], ?_⟩
 rcases rowsKept with same | stripped
 · exact ⟨id, fun c => ⟨rfl, rfl, rfl⟩, by rw [same, rows, List.map_id]⟩
 · exact ⟨publicRow, fun c => ⟨rfl, rfl, rfl⟩, by rw [stripped, rows]⟩

section Placement

variable {strip : Chunk → Chunk} {maxStored : Int64}

theorem placed_layer {g : List StoredChunk} {n next : Nat}
  (same : ∀ c, (strip c).i = c.i ∧ (strip c).p = c.p ∧ (strip c).sb = c.sb)
  (some_chunk : g ≠ []) (nonempty : ∀ s ∈ g, s.stored ≠ [])
  (allowance : 0 < maxStored → ∀ s ∈ g, s.size ≤ maxStored)
  (fits : ((layerContent g).length : Int) < bound) :
  Placed maxStored next ⟨n, digestText (layerContent g), next, (next : Int) + g.length - 1,
   layerSize g⟩ ((layerRows g).map strip) := by
 have sizes : ∀ h : List StoredChunk,
   (((h.map (rowOf (layerPath g))).map strip).map Chunk.sb) = h.map StoredChunk.size := by
  intro h
  rw [List.map_map, List.map_map]
  apply List.map_congr_left
  intro s _
  exact (same _).2.2
 have positive : ∀ s ∈ g, 0 < s.stored.length := fun s member =>
  List.length_pos_of_ne_nil (nonempty s member)
 obtain ⟨first, rest, rfl⟩ := List.exists_cons_of_ne_nil some_chunk
 have path : pathOf ((layerRows (first :: rest)).map strip) = layerPath (first :: rest) :=
  (same _).2.1
 have rowIs : ∀ c ∈ (layerRows (first :: rest)).map strip,
   ∃ s ∈ first :: rest, c.p = layerPath (first :: rest) ∧ c.sb = s.size := by
  intro c member
  obtain ⟨row, inRows, rfl⟩ := List.mem_map.mp member
  obtain ⟨s, inside, rfl⟩ := List.mem_map.mp inRows
  exact ⟨s, inside, (same _).2.1, (same _).2.2⟩
 refine ⟨by simp [layerRows], rfl, ?_, ?_, ?_, ?_, ?_, ?_, ?_⟩
 · rw [List.length_map, layerRows, List.length_map]
   exact Int.sub_add_cancel _ _
 · have head := positive first List.mem_cons_self
   have short := length_stored_le (g := first :: rest) List.mem_cons_self
   rw [Int64.lt_iff_toInt_lt, layerSize_toInt fits]
   change (0 : Int) < _
   omega
 · intro c member
   obtain ⟨s, -, named, -⟩ := rowIs c member
   rw [path, named]
 · intro c member
   obtain ⟨s, inside, -, size⟩ := rowIs c member
   have short := length_stored_le inside
   rw [size, Int64.le_iff_toInt_le, layerSize_toInt fits, size_toInt fits inside]
   omega
 · intro capped c member
   obtain ⟨s, inside, -, size⟩ := rowIs c member
   rw [size]
   exact allowance capped s inside
 · intro k _
   rw [layerRows, ← List.map_take, ← List.map_take, sizes]
   exact layerSize_take_le fits k
 · exact congrArg (wrapSum 0) (sizes _)

theorem tiling_layersFrom {groups : List (List StoredChunk)} {n next : Nat}
  (same : ∀ c, (strip c).i = c.i ∧ (strip c).p = c.p ∧ (strip c).sb = c.sb)
  (solid : ∀ g ∈ groups, g ≠ []) (nonempty : ∀ s ∈ groups.flatten, s.stored ≠ [])
  (allowance : 0 < maxStored → ∀ s ∈ groups.flatten, s.size ≤ maxStored)
  (fits : ((layerContent groups.flatten).length : Int) < bound) :
  Tiling maxStored next (layersFrom n next groups)
   (groups.map fun g => (layerRows g).map strip) := by
 induction groups generalizing n next with
 | nil => trivial
 | cons g groups ih =>
  rw [List.flatten_cons, layerContent_append, List.length_append] at fits
  simp only [List.flatten_cons, List.mem_append] at nonempty allowance
  refine ⟨placed_layer same (solid g List.mem_cons_self) (fun s inside => nonempty s (.inl inside))
   (fun capped s inside => allowance capped s (.inl inside)) (by omega), ?_⟩
  have rest := @ih (n + 1) (next + g.length)
   (fun h member => solid h (List.mem_cons_of_mem g member))
   (fun s inside => nonempty s (.inr inside))
   (fun capped s inside => allowance capped s (.inr inside)) (by omega)
  simpa [layerRows] using rest

end Placement

theorem rows_get {k : Nat} {c : Chunk} (found : (groups.flatMap layerRows)[k]? = some c) :
  ∃ s g, groups.flatten[k]? = some s ∧ c = rowOf (layerPath g) s := by
 induction groups generalizing k with
 | nil => simp at found
 | cons g groups ih =>
  rw [List.flatMap_cons] at found
  have size : (layerRows g).length = g.length := List.length_map _
  by_cases early : k < g.length
  · rw [List.getElem?_append_left (by omega), layerRows, List.getElem?_map] at found
    obtain ⟨s, at_k, rfl⟩ := Option.map_eq_some_iff.mp found
    refine ⟨s, g, ?_, rfl⟩
    rw [List.flatten_cons, List.getElem?_append_left early]
    exact at_k
  · rw [List.getElem?_append_right (by omega), size] at found
    obtain ⟨s, h, at_k, row⟩ := ih found
    refine ⟨s, h, ?_, row⟩
    rw [List.flatten_cons, List.getElem?_append_right (by omega)]
    exact at_k

theorem layerPath_ne_nil (g : List StoredChunk) : layerPath g ≠ [] := by
 unfold layerPath dataBlobPath
 have start : lit "backup/data/" ≠ [] := by decide
 simp [start]

theorem describes_accepted_iff {m : Manifest} {t : ChunkTable}
  (describes : Describes m t groups) (solid : ∀ g ∈ groups, g ≠ [])
  (inOrder : Numbered groups.flatten) (storable : Storable (maxStoredChunkBytes m) groups.flatten)
  (free : CollisionFree {content | content ∈ groups.map layerContent}) :
  validateChunkTable m t = .ok () ↔ (groups.map layerContent).Nodup := by
 obtain ⟨strip, same, rows⟩ := describes.rows
 have split : t.chunks = (groups.map fun g => (layerRows g).map strip).flatten := by
  rw [rows, List.map_flatMap, List.flatMap_def]
 have size : t.chunks.length = groups.flatten.length := by
  rw [rows, List.length_map, List.length_flatMap, List.length_flatten]
  simp only [layerRows, List.length_map]
 have numbered : ∀ k c, t.chunks[k]? = some c → RowAt k c := by
  intro k c found
  rw [rows, List.getElem?_map] at found
  obtain ⟨row, at_k, rfl⟩ := Option.map_eq_some_iff.mp found
  obtain ⟨s, g, chunk, rfl⟩ := rows_get at_k
  have inside : s ∈ groups.flatten := List.mem_of_getElem? chunk
  have filled := List.length_pos_of_ne_nil (storable.nonempty s inside)
  refine ⟨?_, ?_, ?_⟩
  · rw [(same _).1]
    exact congrArg Nat.cast (inOrder k s chunk)
  · rw [(same _).2.2, Int64.lt_iff_toInt_lt]
    change (0 : Int) < s.size.toInt
    rw [size_toInt storable.fits inside]
    omega
  · rw [(same _).2.1]
    exact layerPath_ne_nil g
 have tiling : Tiling (maxStoredChunkBytes m) 0 m.layers
   (groups.map fun g => (layerRows g).map strip) := by
  rw [describes.layers]
  exact tiling_layersFrom same solid storable.nonempty storable.allowance storable.fits
 have paths : (groups.map fun g => (layerRows g).map strip).map pathOf =
   groups.map layerPath := by
  rw [List.map_map]
  apply List.map_congr_left
  intro g member
  obtain ⟨first, rest, rfl⟩ := List.exists_cons_of_ne_nil (solid g member)
  exact (same _).2.1
 have layersAccepted : validateLayers m t = .ok () ↔ (groups.map layerContent).Nodup := by
  rw [validateLayers_ok_iff_of_tiling split tiling, paths]
  have asPath : groups.map layerPath =
    (groups.map layerContent).map fun content => dataBlobPath (digestText content) := by
   rw [List.map_map]
   rfl
  constructor
  · intro nodup
    rw [asPath] at nodup
    exact List.Nodup.of_map _ nodup
  · intro nodup
    rw [asPath]
    refine List.Nodup.map_on ?_ nodup
    intro x hx y hy equal
    obtain ⟨g, -, rfl⟩ := List.mem_map.mp hx
    obtain ⟨h, -, rfl⟩ := List.mem_map.mp hy
    exact layerPath_inj free hx hy equal
 rw [validateChunkTable_ok_iff]
 by_cases empty : t.chunks = []
 · -- without chunks there are no groups, hence no layers
   have nothing : groups = [] := by
    rw [empty, List.length_nil] at size
    cases groups with
    | nil => rfl
    | cons g groups =>
     have some_chunk := List.length_pos_of_ne_nil (solid g List.mem_cons_self)
     rw [List.flatten_cons, List.length_append] at size
     omega
   rw [if_pos empty, describes.count, describes.layers, nothing]
   simp [empty, layersFrom]
 · rw [if_neg empty, ← validateLayers_ok_iff, layersAccepted, describes.count, size]
   constructor
   · rintro ⟨-, -, nodup⟩
     exact nodup
   · intro nodup
     exact ⟨rfl, numbered, nodup⟩

structure LayerPolicy where
 dedup : Bool
 estimated : Int64
 maxLayers : Int

def boundaryAfter (policy : LayerPolicy) (boundary : LayerBoundary)
  (closed : List (List StoredChunk)) : LayerBoundary :=
 if policy.dedup ∧ 110 ≤ closed.length then
  fixedBoundary (fallbackSize policy.estimated (plainOf (closed.take 110).flatten))
 else boundary

def fallenBack (policy : LayerPolicy) (closed : List (List StoredChunk)) : Bool :=
 policy.dedup && decide (110 ≤ closed.length)

def lastDigest (group : List StoredChunk) : Bytes :=
 match group.getLast? with
 | none => []
 | some s => sum256 s.stored

def rolls (policy : LayerPolicy) (boundary : LayerBoundary) : Rule StoredChunk :=
 fun closed group =>
  if policy.maxLayers - 1 ≤ closed.length then false
  else boundaryAfter policy boundary closed (layerSize group) (lastDigest group)

theorem rolls_append (policy : LayerPolicy) (boundary : LayerBoundary)
  (closed : List (List StoredChunk)) (group : List StoredChunk) (s : StoredChunk) :
  rolls policy boundary closed (group ++ [s]) =
   if policy.maxLayers - 1 ≤ closed.length then false
   else boundaryAfter policy boundary closed (layerSize (group ++ [s])) (sum256 s.stored) := by
 simp [rolls, lastDigest]

theorem fallbackBoundary_eq (policy : LayerPolicy) (boundary : LayerBoundary)
  (closed : List (List StoredChunk)) (g : List StoredChunk) :
  fallbackBoundary policy.dedup policy.estimated (plainOf (closed ++ [g]).flatten)
    (closed.length + 1) (boundaryAfter policy boundary closed, fallenBack policy closed) =
   (boundaryAfter policy boundary (closed ++ [g]), fallenBack policy (closed ++ [g])) := by
 have longer : (closed ++ [g]).length = closed.length + 1 := by simp
 unfold fallbackBoundary
 cases dedup : policy.dedup with
 | false => simp [boundaryAfter, fallenBack, dedup]
 | true =>
  rcases lt_trichotomy closed.length 109 with early | now | late
  · have before : ¬ 110 ≤ closed.length := by omega
    have after : ¬ 110 ≤ closed.length + 1 := by omega
    simp [boundaryAfter, fallenBack, dedup, longer, before, after]
  · have before : ¬ 110 ≤ closed.length := by omega
    have all : (closed ++ [g]).take 110 = closed ++ [g] := List.take_of_length_le (by omega)
    have after : 110 ≤ closed.length + 1 := by omega
    simp only [boundaryAfter, fallenBack, dedup, longer, before, after, all, decide_false,
     decide_true, Bool.and_false, Bool.and_true, and_self, if_true]
  · have before : 110 ≤ closed.length := by omega
    have after : 110 ≤ closed.length + 1 := by omega
    have same : (closed ++ [g]).take 110 = closed.take 110 :=
     List.take_append_of_le_length before
    simp [boundaryAfter, fallenBack, dedup, longer, before, after, same]

def renameRows (first last : Int) (path : Str) (rows : List Chunk) : List Chunk :=
 rows.mapIdx fun i c => if first ≤ i ∧ i ≤ last then { c with p := path } else c

theorem renameRows_append (before group after : List Chunk) (path : Str) {first last : Int}
  (starts : first = before.length) (ends : last = (before.length : Int) + group.length - 1) :
  renameRows first last path (before ++ (group ++ after)) =
   before ++ ((group.map fun c => { c with p := path }) ++ after) := by
 subst starts ends
 rw [renameRows, List.mapIdx_append, List.mapIdx_append]
 congr 1
 · apply List.ext_getElem
   · simp
   · intro i inside _
     rw [List.getElem_mapIdx, if_neg]
     rw [List.length_mapIdx] at inside
     omega
 · congr 1
   · apply List.ext_getElem
     · simp
     · intro i inside _
       rw [List.getElem_mapIdx, List.getElem_map, if_pos]
       rw [List.length_mapIdx] at inside
       constructor <;> push_cast <;> omega
   · apply List.ext_getElem
     · simp
     · intro i inside _
       rw [List.getElem_mapIdx, if_neg]
       push_cast
       omega

theorem length_renameRows (first last : Int) (path : Str) (rows : List Chunk) :
  (renameRows first last path rows).length = rows.length :=
 List.length_mapIdx

end BackImage.Index.CutTables
