/- source: pkg/backup/pipeline.go
  digest: The local builder refines the cut of its stored chunks; when the reader accepts it. -/

import BackImage.Backup.Pipeline

namespace BackImage.Backup.CutRefinement

open Pipeline Chunk.Boundary Go.Sha256 Go.Text Index.CutTables Index.Limits Index.Model
open Index.Private
open Lib.Cut (Cutting cutting cut cutting_append items_cutting flatten_cut ne_nil_of_mem_cut)

/-- The builder is at the given point of its cut. The tables are those of the cut as long as the
32-bit chunk counter has not wrapped. -/
structure Follows (cfg : Config) (boundary : LayerBoundary) (b : Builder)
  (c : Cutting StoredChunk) : Prop where
 rowCount : b.rows.length = c.items.length
 counter : b.chunkIdx = UInt32.ofNat c.items.length
 layerCount : b.layers.length = c.closed.length
 blobs : b.blobIdx = c.closed.length
 spool : b.spool = spoolOf c.closed.length c.filling
 plain : b.plainBytes = plainOf c.items
 fallback : b.boundaryFallback = fallenBack (policyOf cfg) c.closed
 boundary : b.boundary = boundaryAfter (policyOf cfg) boundary c.closed
 layers : c.items.length < 4294967296 → b.layers = layersFrom 0 0 c.closed
 rows : c.items.length < 4294967296 →
  b.rows = c.closed.flatMap layerRows ++ c.filling.map (rowOf (blobPath c.closed.length))

theorem follows_start (cfg : Config) (boundary : LayerBoundary) :
  Follows cfg boundary (Builder.start boundary) Cutting.empty := by
 refine ⟨rfl, rfl, rfl, rfl, rfl, rfl, ?_, ?_, fun _ => rfl, fun _ => rfl⟩
 · simp [Builder.start, Cutting.empty, fallenBack]
 · simp [Builder.start, Cutting.empty, boundaryAfter]

variable {ck : PlainChunk}

theorem storeChunk_ok {env : Env} {b b' : Builder} {stored : Bytes}
  (result : storeChunk env ck b = (b', .ok stored)) : storedOf env.store ck = .ok stored ∧
   ∃ s disk, (b.spool = some s ∨ b.spool = none ∧ s = ⟨b.blobIdx, [], 0⟩) ∧
    b' = { b with spool := some (s.write stored), disk := disk } := by
 unfold storeChunk at result
 cases compressed : storedOf env.store ck with
 | error e => simp [compressed] at result
 | ok bytes =>
  simp only [compressed] at result
  cases opened : openSpool env b with
  | error e => simp [opened] at result
  | ok pair =>
   obtain ⟨b₁, s⟩ := pair
   simp only [opened] at result
   cases written : env.writeSpool ck.index with
   | some e => simp [written] at result
   | none =>
    simp only [written, Prod.mk.injEq, Except.ok.injEq] at result
    obtain ⟨rfl, rfl⟩ := result
    refine ⟨rfl, ?_⟩
    rcases openSpool_ok opened with ⟨current, rfl⟩ | ⟨missing, rfl, rfl⟩
    · exact ⟨s, _, .inl current, rfl⟩
    · exact ⟨_, _, .inr ⟨missing, rfl⟩, rfl⟩

variable {env : Env} {cfg : Config} {boundary : LayerBoundary} {b b' : Builder}
 {c : Cutting StoredChunk}

theorem follows_push (follows : Follows cfg boundary b c) {stored : Bytes}
  (result : storeChunk env ck b = (b', .ok stored)) :
  Follows cfg boundary (appendRow b' ⟨ck, stored⟩) (c.push ⟨ck, stored⟩) := by
 obtain ⟨-, s, disk, opened, rfl⟩ := storeChunk_ok result
 have size := Cutting.items_push c ⟨ck, stored⟩
 have spool : some (s.write stored) =
   spoolOf c.closed.length (c.filling ++ [⟨ck, stored⟩]) := by
  have current := follows.spool
  rw [spoolOf_append, ← current]
  rcases opened with found | ⟨missing, rfl⟩
  · rw [found]
    rfl
  · rw [missing, follows.blobs]
    rfl
 refine ⟨?_, ?_, follows.layerCount, follows.blobs, spool, ?_, follows.fallback,
  follows.boundary, ?_, ?_⟩
 · simp [appendRow, size, follows.rowCount]
 · simp [appendRow, size, follows.counter, UInt32.ofNat_add]
 · rw [size, plainOf_append, ← follows.plain]
   rfl
 · intro small
   rw [size, List.length_append] at small
   exact follows.layers (by omega)
 · intro small
   rw [size, List.length_append] at small
   have rows := follows.rows (by omega)
   simp [appendRow, rows, follows.blobs, Cutting.push]

theorem shouldRollLayer_eq {s : StoredChunk} (follows : Follows cfg boundary b (c.push s)) :
  shouldRollLayer cfg b (sum256 s.stored) =
  rolls (policyOf cfg) boundary c.closed (c.filling ++ [s]) := by
 have spool : b.spool = some ⟨c.closed.length, layerContent (c.filling ++ [s]),
   layerSize (c.filling ++ [s])⟩ := by
  rw [follows.spool]
  exact if_neg (by simp [Cutting.push])
 have count : b.layers.length = c.closed.length := follows.layerCount
 have inForce : b.boundary = boundaryAfter (policyOf cfg) boundary c.closed := follows.boundary
 rw [rolls_append]
 simp [shouldRollLayer, spool, count, inForce]

theorem rollLayer_ok (result : rollLayer env cfg b = (b', .ok ())) : b.spool = none ∧ b' = b ∨
   ∃ s rows info disk, b.spool = some s ∧
    rows = renameRows (nextFrom b.layers) (b.chunkIdx.toNat - 1)
     (dataBlobPath (digestText s.content)) b.rows ∧
    info = ⟨b.layers.length, digestText s.content, nextFrom b.layers, b.chunkIdx.toNat - 1,
     s.size⟩ ∧
    b' = applyFallback cfg
     { b with
       rows := rows, layers := b.layers ++ [info], blobIdx := b.blobIdx + 1, spool := none
       disk := disk } := by
 have rolled := rollLayer_rolled env cfg b
 rw [result] at rolled
 cases rolled with
 | idle missing => exact .inl ⟨missing, rfl⟩
 | closed s found => exact .inr ⟨s, _, _, _, found, rfl, rfl, rfl⟩

theorem nextFrom_layersFrom (closed : List (List StoredChunk)) :
  nextFrom (layersFrom 0 0 closed) = closed.flatten.length := by
 induction closed using List.reverseRecOn with
 | nil => rfl
 | append_singleton closed g _ =>
  rw [layersFrom_append, nextFrom, List.getLast?_concat]
  simp only [List.flatten_append, List.flatten_singleton, List.length_append]
  push_cast
  omega

theorem applyFallback_frame (cfg : Config) (b : Builder) : applyFallback cfg b = { b with
    boundary := (applyFallback cfg b).boundary
    boundaryFallback := (applyFallback cfg b).boundaryFallback } := rfl

theorem applyFallback_boundary {closed : List (List StoredChunk)} {g : List StoredChunk}
  (fallback : b.boundaryFallback = fallenBack (policyOf cfg) closed)
  (inForce : b.boundary = boundaryAfter (policyOf cfg) boundary closed)
  (plain : b.plainBytes = plainOf (closed ++ [g]).flatten)
  (count : b.layers.length = closed.length + 1) :
  (applyFallback cfg b).boundary = boundaryAfter (policyOf cfg) boundary (closed ++ [g]) ∧
   (applyFallback cfg b).boundaryFallback = fallenBack (policyOf cfg) (closed ++ [g]) := by
 have moved := fallbackBoundary_eq (policyOf cfg) boundary closed g
 rw [← fallback, ← inForce, ← plain, ← count] at moved
 exact ⟨congrArg Prod.fst moved, congrArg Prod.snd moved⟩

theorem follows_roll (follows : Follows cfg boundary b c)
  (result : rollLayer env cfg b = (b', .ok ())) : Follows cfg boundary b' c.close := by
 have spool := follows.spool
 rcases rollLayer_ok result with ⟨missing, rfl⟩ | ⟨s, rows, info, disk, found, rowsAre, infoIs, rfl⟩
 · have nothing : c.filling.isEmpty := by
    by_contra filled
    rw [missing, spoolOf, if_neg filled] at spool
    cases spool
   rw [Cutting.close, if_pos nothing]
   exact follows
 · have filled : c.filling ≠ [] := by
    intro nothing
    rw [found, nothing] at spool
    cases spool
   have sIs : s = ⟨c.closed.length, layerContent c.filling, layerSize c.filling⟩ := by
    rw [found, spoolOf, if_neg (by simpa using filled)] at spool
    exact Option.some.inj spool
   have items : (⟨c.closed ++ [c.filling], []⟩ : Cutting StoredChunk).items = c.items := by
    simp [Cutting.items]
   have flat : (c.closed ++ [c.filling]).flatten = c.items := by simp [Cutting.items]
   have count : (b.layers ++ [info]).length = c.closed.length + 1 := by
    rw [List.length_append, follows.layerCount]
    rfl
   have after := applyFallback_boundary (b := { b with
    rows := rows, layers := b.layers ++ [info], blobIdx := b.blobIdx + 1, spool := none
    disk := disk }) follows.fallback follows.boundary (flat ▸ follows.plain) count
   -- without wraparound the layer covers exactly the group
   have positions : c.items.length < 4294967296 →
     nextFrom b.layers = c.closed.flatten.length ∧
      (b.chunkIdx.toNat : Int) - 1 = c.closed.flatten.length + c.filling.length - 1 := by
    intro small
    refine ⟨by rw [follows.layers small, nextFrom_layersFrom], ?_⟩
    rw [follows.counter, UInt32.toNat_ofNat_of_lt' small, Cutting.items, List.length_append]
    push_cast
    rfl
   rw [Cutting.close_of_ne_nil filled, applyFallback_frame]
   refine ⟨?_, ?_, ?_, ?_, rfl, ?_, after.2, after.1, ?_, ?_⟩
   · rw [items, ← follows.rowCount, rowsAre]
     exact length_renameRows _ _ _ _
   · rw [items]
     exact follows.counter
   · rw [count, List.length_append]
     rfl
   · rw [List.length_append, ← follows.blobs]
     rfl
   · rw [items]
     exact follows.plain
   · intro small
     rw [items] at small
     obtain ⟨first, last⟩ := positions small
     rw [layersFrom_append, infoIs, sIs, first, last, follows.layers small, layersFrom_length]
     simp
   · intro small
     rw [items] at small
     obtain ⟨first, last⟩ := positions small
     have size : (c.closed.flatMap layerRows).length = c.closed.flatten.length := by
      rw [List.length_flatMap, List.length_flatten]
      simp only [layerRows, List.length_map]
     have renamed := renameRows_append (c.closed.flatMap layerRows)
      (c.filling.map (rowOf (blobPath c.closed.length))) [] (layerPath c.filling)
      (first.trans (by rw [size])) (last.trans (by rw [size, List.length_map]))
     rw [List.append_nil, List.append_nil] at renamed
     rw [rowsAre, sIs, follows.rows small]
     refine renamed.trans ?_
     simp [layerRows, rowOf]

theorem follows_feedChunk (follows : Follows cfg boundary b c)
  (result : feedChunk env cfg ck b = (b', .ok ())) : ∃ stored, storedOf env.store ck = .ok stored ∧
   Follows cfg boundary b' (c.step (rolls (policyOf cfg) boundary) ⟨ck, stored⟩) := by
 unfold feedChunk at result
 cases alive : env.cancelled ck.index with
 | some e => simp [alive] at result
 | none =>
  simp only [alive] at result
  cases stores : storeChunk env ck b with
  | mk b₁ outcome =>
   rw [stores] at result
   cases outcome with
   | error e => simp at result
   | ok stored =>
    have pushed := follows_push follows stores
    refine ⟨stored, (storeChunk_ok stores).1, ?_⟩
    simp only [shouldRollLayer_eq pushed] at result
    unfold Cutting.step
    by_cases closes : rolls (policyOf cfg) boundary c.closed (c.filling ++ [⟨ck, stored⟩]) = true
    · rw [if_pos closes] at result ⊢
      exact follows_roll pushed result
    · rw [if_neg closes] at result ⊢
      cases result
      exact pushed

theorem follows_feedAll {cks : List PlainChunk} {done : List StoredChunk}
  (follows : Follows cfg boundary b (cutting (rolls (policyOf cfg) boundary) done))
  (result : feedAll env cfg cks b = (b', .ok ())) :
  (storedChunks env.store cks).map StoredChunk.plain = cks ∧
   Follows cfg boundary b'
   (cutting (rolls (policyOf cfg) boundary) (done ++ storedChunks env.store cks)) := by
 induction cks generalizing b done with
 | nil =>
  cases result
  refine ⟨rfl, ?_⟩
  rw [storedChunks, List.filterMap_nil, List.append_nil]
  exact follows
 | cons ck rest ih =>
  unfold feedAll at result
  cases turn : feedChunk env cfg ck b with
  | mk b₁ outcome =>
   rw [turn] at result
   cases outcome with
   | error e => simp at result
   | ok _ =>
    obtain ⟨stored, storedIs, next⟩ := follows_feedChunk follows turn
    rw [← cutting_append] at next
    obtain ⟨plains, whole⟩ := ih next result
    rw [storedChunks_cons storedIs]
    refine ⟨by rw [List.map_cons, plains], ?_⟩
    rwa [List.append_assoc] at whole

variable {feed : Feed}

theorem buildWith_ok (result : buildWith env cfg feed boundary = (b, .ok ())) :
  ∃ b₁, feedAll env cfg (number 0 feed.data) (Builder.start boundary) = (b₁, .ok ()) ∧
  b₁.chunkIdx ≠ 0 ∧
   rollLayer env cfg b₁ = (b, .ok ()) := by
 unfold buildWith at result
 by_cases bad : cfg.dedup = false ∧ (cfg.chunkBytes < minChunkSize ∨ maxChunkSize < cfg.chunkBytes)
 · simp [bad] at result
 · rw [if_neg bad] at result
   cases sealing : env.newSealer with
   | some e => simp [sealing] at result
   | none =>
    simp only [sealing] at result
    cases fed : feedAll env cfg (number 0 feed.data) (Builder.start boundary) with
    | mk b₁ outcome =>
     cases outcome with
     | error e => simp [fed, finish] at result
     | ok _ =>
      simp only [fed, finish] at result
      cases split : feed.splitErr with
      | some e => simp [split] at result
      | none =>
       cases archived : feed.archiveErr with
       | some e => simp [split, archived] at result
       | none =>
        simp only [split, archived] at result
        by_cases empty : b₁.chunkIdx = 0
        · simp [empty] at result
        · rw [if_neg empty] at result
          exact ⟨b₁, rfl, empty, result⟩

/-- The tables of a build that went through; the counter of the chunks has 32 bits. -/
structure Built (env : Env) (cfg : Config) (feed : Feed) (boundary : LayerBoundary) (b : Builder) :
  Prop where
 plains : (storedChunks env.store (number 0 feed.data)).map StoredChunk.plain = number 0 feed.data
 rowCount : b.rows.length = feed.data.length
 counter : b.chunkIdx = UInt32.ofNat feed.data.length
 fallback : b.boundaryFallback = fallenBack (policyOf cfg)
  (cut (rolls (policyOf cfg) boundary) (storedChunks env.store (number 0 feed.data)))
 layers : feed.data.length < 4294967296 →
  b.layers = layersFrom 0 0
   (cut (rolls (policyOf cfg) boundary) (storedChunks env.store (number 0 feed.data)))
 rows : feed.data.length < 4294967296 →
  b.rows = (cut (rolls (policyOf cfg) boundary)
   (storedChunks env.store (number 0 feed.data))).flatMap layerRows

theorem length_storedChunks {store : Store} {data : List Bytes}
  (plains : (storedChunks store (number 0 data)).map StoredChunk.plain = number 0 data) :
  (storedChunks store (number 0 data)).length = data.length := by
 rw [← List.length_map StoredChunk.plain, plains, number_length]

theorem built_of_buildWith (result : buildWith env cfg feed boundary = (b, .ok ())) :
  Built env cfg feed boundary b := by
 have start : Follows cfg boundary (Builder.start boundary)
   (cutting (rolls (policyOf cfg) boundary) []) := follows_start cfg boundary
 obtain ⟨b₁, fed, -, closed⟩ := buildWith_ok result
 obtain ⟨plains, follows⟩ := follows_feedAll start fed
 obtain ⟨rowCount, counter, -, -, -, -, fallback, -, layers, rows⟩ := follows_roll follows closed
 rw [Cutting.items_close, items_cutting, List.nil_append, length_storedChunks plains]
  at rowCount counter layers rows
 rw [Cutting.close_filling, List.map_nil, List.append_nil] at rows
 exact ⟨plains, rowCount, counter, fallback, layers, rows⟩

variable {md : Metadata}

theorem finalize_ok (result : finalize env cfg feed b = .ok md) :
  md.manifest.chunking = chunkingInfo cfg b ∧ md.manifest.layers = b.layers ∧
   (md.table.chunks = b.rows ∨ md.table.chunks = b.rows.map publicRow) := by
 unfold finalize at result
 cases assembled : assemble env.writer (manifestOf env cfg feed.stats b) ⟨schemaVersion, b.rows⟩
   feed.entries with
 | error e => simp [assembled] at result
 | ok md' =>
  simp only [assembled, Except.ok.injEq] at result
  subst result
  exact assemble_ok assembled

theorem Built.count (built : Built env cfg feed boundary b)
  (small : feed.data.length < 4294967296) :
  (chunkingInfo cfg b).count =
   (cut (rolls (policyOf cfg) boundary)
    (storedChunks env.store (number 0 feed.data))).flatten.length := by
 rw [chunkingInfo, chunkingOf_count, built.counter, flatten_cut, length_storedChunks built.plains,
  UInt32.toNat_ofNat_of_lt' small]

theorem backupWith_built (result : backupWith env cfg feed boundary = .ok md) :
  ∃ b, Built env cfg feed boundary b ∧ finalize env cfg feed b = .ok md := by
 unfold backupWith at result
 cases built : buildWith env cfg feed boundary with
 | mk b outcome =>
  rw [built] at result
  cases outcome with
  | error e => cases result
  | ok _ => exact ⟨b, built_of_buildWith built, result⟩

theorem backupWith_ok (result : backupWith env cfg feed boundary = .ok md) :
  (storedChunks env.store (number 0 feed.data)).map StoredChunk.plain = number 0 feed.data ∧
   md.manifest.chunking.count = (feed.data.length % 4294967296 : Nat) ∧
   md.table.chunks.length = feed.data.length ∧
   (feed.data.length < 4294967296 → Describes md.manifest md.table
    (cut (rolls (policyOf cfg) boundary) (storedChunks env.store (number 0 feed.data)))) := by
 obtain ⟨b, built, finalized⟩ := backupWith_built result
 obtain ⟨chunking, layers, rows⟩ := finalize_ok finalized
 refine ⟨built.plains, ?_, ?_, fun small => ⟨?_, ?_, ?_⟩⟩
 · rw [chunking, chunkingInfo, chunkingOf_count, built.counter]
   rfl
 · rcases rows with same | stripped
   · rw [same, built.rowCount]
   · rw [stripped, List.length_map, built.rowCount]
 · rw [chunking, built.count small]
 · rw [layers, built.layers small]
 · rcases rows with same | stripped
   · exact ⟨id, fun c => ⟨rfl, rfl, rfl⟩, by rw [same, built.rows small, List.map_id]⟩
   · exact ⟨publicRow, fun c => ⟨rfl, rfl, rfl⟩, by rw [stripped, built.rows small]⟩

theorem backupWith_accepted_iff (result : backupWith env cfg feed boundary = .ok md)
  (storable : Storable (maxStoredChunkBytes md.manifest)
   (storedChunks env.store (number 0 feed.data))) (free : CollisionFree {content | content ∈
   (cut (rolls (policyOf cfg) boundary) (storedChunks env.store (number 0 feed.data))).map
   layerContent}) :
  validateChunkTable md.manifest md.table = .ok () ↔
   feed.data.length < 4294967296 ∧
    ((cut (rolls (policyOf cfg) boundary) (storedChunks env.store (number 0 feed.data))).map
     layerContent).Nodup := by
 obtain ⟨plains, count, size, describes⟩ := backupWith_ok result
 by_cases small : feed.data.length < 4294967296
 · have accepted := describes_accepted_iff (describes small)
    (fun g member => ne_nil_of_mem_cut member)
    (by rw [flatten_cut]; exact numbered_storedChunks plains)
    (by rw [flatten_cut]; exact storable) free
   rw [accepted]
   constructor
   · intro nodup
     exact ⟨small, nodup⟩
   · intro both
     exact both.2
 · constructor
   · intro accepted
     have same := (validateChunkTable_ok_iff.mp accepted).1
     rw [count, size] at same
     omega
   · intro both
     exact absurd both.1 small

end BackImage.Backup.CutRefinement
